import Admission.Proofs.Time.Covering

/-!
# Waits that are hardly too long

A duration that covers a computed number of seconds is less than two nanoseconds longer than these: rounding
to the nearest nanosecond adds half of one at most, and what fell short gets one more. Everything from 2⁶⁴
seconds on is given the longest duration, and what is not positive none at all.

## Main results

* `Duration.nanos_nearestClamped_le`: rounding to the nearest nanosecond adds half of one at most.
* `Duration.exactSeconds_covering_lt`: a covering duration is less than two nanoseconds too long.
* `Duration.covering_of_two_pow_le`: what no duration is long enough for is given the longest one.
* `Duration.covers_tightly`: covering durations over the whole range of doubles.
-/

namespace Admission

open Binary64

-- Powers of natural numbers are the core library's, whatever else is in scope.
attribute [local instance (high)] instPowNat

namespace Duration

variable {y : Binary64} {x : ℚ}

/-! ### No more than needed -/

/-- The nearest duration is half a nanosecond too long at most. -/
theorem nanos_nearestClamped_le (h : Denotes y x) (positive : 0 < x) :
    (nearestClamped y).nanos ≤ x * nanosPerSecond + 1 / 2 := by
  obtain ⟨units, fits, rfl, rfl⟩ := h.exists_eq_finite positive
  have near := (roundDiv_near (units * nanosPerSecond) unitsInOne unitsInOne_pos).1
  have least : (nearestClamped (.finite false units fits)).nanos ≤
      roundDiv (units * nanosPerSecond) unitsInOne := by
    rw [nanos_nearestClamped]
    exact Nat.min_le_left _ _
  have cross : 2 * ((nearestClamped (.finite false units fits)).nanos * unitsInOne) ≤
      2 * (units * nanosPerSecond) + unitsInOne :=
    (Nat.mul_le_mul_left 2 (Nat.mul_le_mul_right _ least)).trans near
  have scaled : 2 * ((nearestClamped (.finite false units fits)).nanos * unitScale) ≤
      2 * (units * nanosPerSecond) + unitScale := by
    rw [unitScale]
    exact_mod_cast cross
  have unit : (units : ℚ) / unitScale * unitScale = units := div_mul_cancel₀ _ unitScale_pos.ne'
  refine le_of_mul_le_mul_right ?_ unitScale_pos
  rw [add_mul, mul_right_comm, unit]
  linarith

/-- A covering duration is less than two nanoseconds longer than what it covers. -/
theorem exactSeconds_covering_lt (h : Denotes y x) (positive : 0 < x) :
    (covering y).exactSeconds < x + 2 / nanosPerSecond := by
  have second : (0 : ℚ) < nanosPerSecond := by norm_num [nanosPerSecond]
  have near := nanos_nearestClamped_le h positive
  have next : ((covering y).nanos : ℚ) ≤ (nearestClamped y).nanos + 1 := by
    exact_mod_cast (covering_bounds h positive).2
  rw [exactSeconds, div_lt_iff₀ second, add_mul, div_mul_cancel₀ _ second.ne']
  linarith

/-! ### The ends of the range -/

/-- The first number of seconds that no duration has. -/
theorem denotes_two_pow : Denotes (ofNat (2 ^ (64 : ℕ))) (2 ^ 64) := by
  rw [← seconds_max, ← roundedSeconds_max]
  exact max.denotes_seconds

theorem nearestClamped_of_two_pow_le (h : Denotes y x) (long : 2 ^ 64 ≤ x) : nearestClamped y = max := by
  obtain ⟨units, fits, rfl, rfl⟩ := h.exists_eq_finite (lt_of_lt_of_le (by norm_num) long)
  rw [le_div_iff₀ unitScale_pos, unitScale] at long
  have many : 2 ^ (64 : ℕ) * unitsInOne ≤ units := by
    generalize unitsInOne = one at long ⊢
    exact_mod_cast long
  rw [nearestClamped, nearest?, if_neg (not_lt.2 many), Option.getD_none]

/-- What no duration is long enough for is given the longest one. -/
theorem covering_of_two_pow_le (long : ofNat (2 ^ (64 : ℕ)) ≤ y) : covering y = max := by
  rcases denotes_two_pow.cases_of_le long with ⟨x, h, long⟩ | rfl
  · have clamped : ofNanosClamped (max.nanos + 1) = max := by decide
    rw [covering_of_pos h (lt_of_lt_of_le (by norm_num) long), nearestClamped_of_two_pow_le h long, clamped,
      ite_self]
  · exact covering_infinity

/-! ### The whole range -/

/-- A positive number of seconds, if there is a duration so long, is covered by one that is computed to have
all of them, that is less than two nanoseconds longer than they are, and that takes some time. What no
duration is long enough for is given the longest one, and what is not positive none. More seconds never get
less. -/
theorem covers_tightly :
    (∀ (y : Binary64) (x : ℚ), Denotes y x → 0 < x → x < 2 ^ 64 →
      y ≤ (covering y).seconds ∧ (covering y).exactSeconds < x + 2 / nanosPerSecond ∧
        1 ≤ (covering y).nanos) ∧
    (∀ y, ofNat (2 ^ (64 : ℕ)) ≤ y → covering y = max) ∧
    (∀ y : Binary64, y ≤ 0 → covering y = zero) ∧
    ∀ y z : Binary64, y ≤ z → (covering y).nanos ≤ (covering z).nanos := by
  refine ⟨fun y x h positive short => ?_, fun y => covering_of_two_pow_le, fun y => covering_of_le_zero,
    fun y z => covering_mono⟩
  have enough := min_le_roundedSeconds_covering h
  rw [inf_eq_left.2 short.le] at enough
  refine ⟨(h.le_iff (covering y).denotes_seconds).2 enough, exactSeconds_covering_lt h positive, ?_⟩
  exact Nat.one_le_iff_ne_zero.2 fun none => covering_ne_zero h positive (nanos_eq_zero.1 none)

/-- The nanosecond nearest to a third of a second falls short of it, and one more is waited. -/
theorem covers_tightly_third :
    Denotes (1 / 3) (rounded (1 / 3)) ∧ 0 < rounded (1 / 3) ∧ rounded (1 / 3) < 2 ^ 64 ∧
      (nearestClamped (1 / 3)).nanos = 333333333 ∧ (covering (1 / 3)).nanos = 333333334 ∧
      (1 / 3 : Binary64) ≤ (covering (1 / 3)).seconds ∧
      (covering (1 / 3)).exactSeconds < rounded (1 / 3) + 2 / nanosPerSecond ∧
      1 ≤ (covering (1 / 3)).nanos := by
  have small : |(1 : ℚ) / 3| ≤ ample := le_ample (k := 0) (by norm_num [abs_of_pos]) (by omega)
  have third : Denotes (1 / 3) (rounded (1 / 3)) :=
    denotes_ofNat_one.div (denotes_natCast (n := 3) (by decide)) (by norm_num) small
  have positive : 0 < rounded (1 / 3) := by
    have quarter := rounded_div_two_pow (m := 1) (k := 2) (by decide) (by omega)
    have less : rounded ((1 : ℕ) / 2 ^ 2) ≤ rounded (1 / 3) := rounded_mono (by norm_num)
    rw [quarter] at less
    exact lt_of_lt_of_le (by norm_num) less
  have short : rounded (1 / 3) < 2 ^ 64 := by
    have most : rounded (1 / 3) ≤ 2 ^ 0 := rounded_le_two_pow (by norm_num)
    exact lt_of_le_of_lt most (by norm_num)
  exact ⟨third, positive, short, by decide +kernel, by decide +kernel, covers_tightly.1 _ _ third positive short⟩

end Duration

end Admission
