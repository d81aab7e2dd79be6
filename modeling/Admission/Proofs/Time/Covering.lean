import Admission.Proofs.Binary64.Order
import Admission.Proofs.Time.Seconds

/-!
# Waits that are long enough

A computed number of seconds is turned into a duration by rounding to the nearest nanosecond, and up where
the duration, turned back into seconds, falls short. What is waited for at least so long is computed to be
at least so many seconds: turning a duration into seconds keeps order, although it rounds three times. More
seconds have a covering duration that is no shorter.

## Main definitions

* `Duration.nearestClamped`: the duration nearest to a positive double, or the longest one.

## Main results

* `Duration.roundedSeconds_mono`, `accrual_mono`: more time is not computed to be less.
* `Duration.le_roundedSeconds_of_le_exactSeconds`: a double that a duration reaches is reached as computed.
* `Duration.min_le_roundedSeconds_covering`, `Duration.covering_ne_zero`: a covering duration covers.
* `Duration.roundedSeconds_le_of_secondsRoundedUp`: so do its seconds, rounded up.
* `Duration.covering_mono`: covering durations are in the order of what they cover.
* `min_le_accrual_of_covering`, `add_mul_le_accrual`: what the quota gives for a wait.
-/

namespace Admission

open Binary64

-- Powers of natural numbers are the core library's, whatever else is in scope.
attribute [local instance (high)] instPowNat

namespace Duration

variable {d e : Duration} {x : ℚ} {y : Binary64}

/-! ### Order -/

theorem rounded_fraction_le_one (d : Duration) : rounded (d.subsecNanos / nanosPerSecond) ≤ 1 :=
  (rounded_mono d.fraction_le_one).trans_eq rounded_one

theorem rounded_fraction_lt_one (d : Duration) : rounded (d.subsecNanos / nanosPerSecond) < 1 := by
  have part : (d.subsecNanos : ℚ) ≤ 999999999 := by exact_mod_cast Nat.le_of_lt_succ d.subsecNanos_lt
  have most : (d.subsecNanos : ℚ) / nanosPerSecond ≤ (2 ^ (53 : ℕ) - 1 : ℕ) / 2 ^ 53 := by
    norm_num [nanosPerSecond]
    linarith
  calc rounded (d.subsecNanos / nanosPerSecond) ≤ (2 ^ (53 : ℕ) - 1 : ℕ) / 2 ^ 53 :=
        (rounded_mono most).trans_eq (rounded_div_two_pow (by decide) (by omega))
    _ < 1 := by norm_num

/-- From 2⁵³ seconds on the fraction is rounded away. -/
theorem roundedSeconds_of_large (large : 2 ^ (53 : ℕ) ≤ d.wholeSeconds) :
    d.roundedSeconds = rounded d.wholeSeconds := by
  have whole : Denotes (ofNat d.wholeSeconds) (rounded d.wholeSeconds) :=
    denotes_ofNat (le_ample (k := 64) (by exact_mod_cast d.wholeSeconds_lt.le) (by omega))
  refine whole.rounded_add_of_lt_one ?_ (rounded_nonneg d.fraction_nonneg) d.rounded_fraction_lt_one
  rw [← rounded_two_pow]
  exact rounded_mono (by exact_mod_cast large)

theorem rounded_wholeSeconds_le (d : Duration) : rounded d.wholeSeconds ≤ d.roundedSeconds := by
  have kept : rounded (rounded d.wholeSeconds) = rounded d.wholeSeconds :=
    (denotes_ofNat (le_ample (k := 64) (by exact_mod_cast d.wholeSeconds_lt.le) (by omega))).rounded_eq
  conv_lhs => rw [← kept]
  exact rounded_mono (le_add_of_nonneg_right (rounded_nonneg d.fraction_nonneg))

/-- A longer duration is not computed to be shorter. -/
theorem roundedSeconds_mono (longer : d.nanos ≤ e.nanos) : d.roundedSeconds ≤ e.roundedSeconds := by
  have seconds : d.wholeSeconds ≤ e.wholeSeconds := Nat.div_le_div_right longer
  rcases Nat.lt_or_ge d.wholeSeconds (2 ^ (53 : ℕ)) with small | large
  · rcases Nat.lt_or_eq_of_le seconds with more | same
    · -- The fraction does not take the shorter one past the next whole second.
      have next := rounded_natCast (n := d.wholeSeconds + 1) small
      rw [Nat.cast_succ] at next
      calc d.roundedSeconds ≤ rounded (d.wholeSeconds + 1) := by
            rw [roundedSeconds, rounded_natCast small.le]
            exact rounded_mono (add_le_add_right d.rounded_fraction_le_one _)
        _ ≤ rounded e.wholeSeconds := rounded_mono (by exact_mod_cast more)
        _ ≤ e.roundedSeconds := e.rounded_wholeSeconds_le
    · have part : d.subsecNanos ≤ e.subsecNanos := by
        have := Nat.div_add_mod d.nanos nanosPerSecond
        have := Nat.div_add_mod e.nanos nanosPerSecond
        simp only [wholeSeconds, subsecNanos] at same ⊢
        rw [same] at *
        omega
      rw [roundedSeconds, roundedSeconds, same]
      refine rounded_mono (add_le_add_right (rounded_mono ?_) _)
      exact div_le_div_of_nonneg_right (by exact_mod_cast part) (by positivity)
  · calc d.roundedSeconds = rounded d.wholeSeconds := roundedSeconds_of_large large
      _ ≤ rounded e.wholeSeconds := rounded_mono (by exact_mod_cast seconds)
      _ ≤ e.roundedSeconds := e.rounded_wholeSeconds_le

/-! ### Covering -/

/-- Only doubles of less than 2⁵³ lie between the whole seconds of a duration and all of its seconds. -/
theorem wholeSeconds_lt_of_lt (h : Denotes y x) (beyond : d.wholeSeconds < x) (reached : x ≤ d.exactSeconds) :
    d.wholeSeconds < 2 ^ (53 : ℕ) := by
  rw [exactSeconds_eq] at reached
  by_contra large
  have large : (2 : ℚ) ^ 53 ≤ d.wholeSeconds := by exact_mod_cast not_lt.1 large
  obtain ⟨k, rfl⟩ := h.exists_eq_div (t := 0) (by omega) (by
    rw [pow_zero, div_one]
    linarith)
  have fraction : (d.subsecNanos : ℚ) / nanosPerSecond < 1 := by
    rw [div_lt_one (by norm_num [nanosPerSecond])]
    exact_mod_cast d.subsecNanos_lt
  rw [pow_zero, div_one] at beyond reached
  have next : (d.wholeSeconds : ℚ) + 1 ≤ k := by exact_mod_cast beyond
  linarith

/-- What a double between the whole seconds of a duration and all of its seconds has beyond the former is a
double as well. -/
theorem rounded_sub_wholeSeconds (h : Denotes y x) (beyond : d.wholeSeconds < x)
    (reached : x ≤ d.exactSeconds) : rounded (x - d.wholeSeconds) = x - d.wholeSeconds := by
  rw [exactSeconds_eq] at reached
  rcases Nat.eq_zero_or_pos d.wholeSeconds with none | some
  · rw [none, Nat.cast_zero, sub_zero, h.rounded_eq]
  · have one : (1 : ℚ) ≤ d.wholeSeconds := by exact_mod_cast some
    -- From one on, doubles are whole numbers of 2⁻⁵².
    obtain ⟨k, rfl⟩ := h.exists_eq_div (t := 52) (by omega) (by
      rw [div_self (by positivity)]
      exact one.trans beyond.le)
    obtain ⟨m, rfl⟩ : ∃ m, k = d.wholeSeconds * 2 ^ (52 : ℕ) + m := by
      rw [lt_div_iff₀ (by positivity)] at beyond
      exact Nat.exists_eq_add_of_le (by exact_mod_cast beyond.le)
    have part : ((d.wholeSeconds * 2 ^ (52 : ℕ) + m : ℕ) : ℚ) / 2 ^ 52 - d.wholeSeconds = m / 2 ^ 52 := by
      push_cast
      field_simp
      ring
    have few : m ≤ 2 ^ (52 : ℕ) := by
      have : (m : ℚ) / 2 ^ 52 ≤ 1 := by linarith [d.fraction_le_one]
      rw [div_le_one (by positivity)] at this
      exact_mod_cast this
    rw [part, rounded_div_two_pow (few.trans (by decide)) (by omega)]

/-- A double that is no more than the exact seconds of a duration is no more than the computed ones. -/
theorem le_roundedSeconds_of_le_exactSeconds (h : Denotes y x) (reached : x ≤ d.exactSeconds) :
    x ≤ d.roundedSeconds := by
  rcases le_or_gt x d.wholeSeconds with whole | beyond
  · calc x = rounded x := h.rounded_eq.symm
      _ ≤ rounded d.wholeSeconds := rounded_mono whole
      _ ≤ d.roundedSeconds := d.rounded_wholeSeconds_le
  · have small := wholeSeconds_lt_of_lt h beyond reached
    have rest := rounded_sub_wholeSeconds h beyond reached
    rw [exactSeconds_eq] at reached
    calc x = rounded (d.wholeSeconds + rounded (x - d.wholeSeconds)) := by
          rw [rest, add_sub_cancel, h.rounded_eq]
      _ ≤ d.roundedSeconds := by
          rw [roundedSeconds, rounded_natCast small.le]
          refine rounded_mono (add_le_add_right (rounded_mono ?_) _)
          linarith

theorem nanos_ofNanos?_eq {nanos : ℕ} (h : ofNanos? nanos = some d) : d.nanos = nanos := by
  rw [ofNanos?] at h
  split at h
  · cases h
    rfl
  · cases h

/-- The nearest duration falls short by less than a nanosecond. -/
theorem le_of_nearest?_eq (h : Denotes y x) (near : nearest? y = some d) :
    x ≤ (d.nanos + 1 : ℕ) / nanosPerSecond := by
  cases h with
  | finite negative units fits =>
    cases negative with
    | true => cases near
    | false =>
      rw [nearest?] at near
      split at near
      case isFalse => cases near
      case isTrue =>
        have short := (roundDiv_near (units * nanosPerSecond) unitsInOne unitsInOne_pos).2
        rw [← nanos_ofNanos?_eq near] at short
        have cross : units * nanosPerSecond ≤ (d.nanos + 1) * unitsInOne := by
          rw [Nat.add_mul]
          omega
        rw [sign, if_neg Bool.false_ne_true, one_mul, div_le_div_iff₀ unitScale_pos
          (by norm_num [nanosPerSecond]), unitScale]
        exact_mod_cast cross

/-- The seconds of the clamped duration are no fewer than a double that the nanoseconds reach. -/
theorem min_le_roundedSeconds_ofNanosClamped {nanos : ℕ} (h : Denotes y x)
    (reached : x ≤ nanos / nanosPerSecond) : x ⊓ 2 ^ 64 ≤ (ofNanosClamped nanos).roundedSeconds := by
  rw [ofNanosClamped, ofNanos?]
  split
  case isTrue fits => exact inf_le_left.trans (le_roundedSeconds_of_le_exactSeconds h reached)
  case isFalse => exact inf_le_right.trans roundedSeconds_max.ge

/-- A covering duration is computed to have all the seconds asked for, as far as durations go. -/
theorem min_le_roundedSeconds_covering (h : Denotes y x) :
    x ⊓ 2 ^ 64 ≤ (covering y).roundedSeconds := by
  rw [covering, h.isNaN]
  split
  case isTrue none =>
    have nonpos : x ≤ 0 := (h.le_iff denotes_ofNat_zero).1 (none.resolve_left Bool.false_ne_true)
    exact inf_le_left.trans (nonpos.trans zero.roundedSeconds_nonneg)
  case isFalse =>
    cases near : nearest? y with
    | none =>
      -- There is no longer duration than the longest one.
      have clamped : ofNanosClamped (max.nanos + 1) = max := by decide
      simp only [Option.getD_none, clamped, ite_self]
      exact inf_le_right.trans roundedSeconds_max.ge
    | some d =>
      simp only [Option.getD_some]
      split
      case isTrue => exact min_le_roundedSeconds_ofNanosClamped h (le_of_nearest?_eq h near)
      case isFalse enough =>
        exact inf_le_left.trans (not_lt.1 fun short => enough ((d.denotes_seconds.lt_iff h).2 short))

/-- What takes any time is covered by some. -/
theorem covering_ne_zero (h : Denotes y x) (positive : 0 < x) : covering y ≠ zero := by
  intro none
  have covered := min_le_roundedSeconds_covering h
  rw [none, roundedSeconds_zero] at covered
  rcases inf_le_iff.1 covered with low | low
  · linarith
  · norm_num at low

/-- The duration nearest to a positive double, or the longest one. -/
def nearestClamped (y : Binary64) : Duration := (nearest? y).getD max

theorem nanos_le_max (d : Duration) : d.nanos ≤ max.nanos := Nat.le_of_lt_succ d.nanos_lt

theorem nanos_ofNanosClamped (nanos : ℕ) : (ofNanosClamped nanos).nanos = Nat.min nanos max.nanos := by
  rw [ofNanosClamped, ofNanos?]
  split
  case isTrue fits => exact (Nat.min_eq_left (Nat.le_of_lt_succ fits)).symm
  case isFalse long =>
    refine (Nat.min_eq_right ?_).symm
    exact (Nat.sub_le _ 1).trans (not_lt.1 long)

/-- The nearest number of nanoseconds, as far as durations go. -/
theorem nanos_nearestClamped {units : ℕ} (fits : Fits units) :
    (nearestClamped (.finite false units fits)).nanos =
      Nat.min (roundDiv (units * nanosPerSecond) unitsInOne) max.nanos := by
  rw [nearestClamped, nearest?]
  split
  case isTrue => rw [← ofNanosClamped, nanos_ofNanosClamped]
  case isFalse long =>
    -- From 2⁶⁴ seconds on the nearest number is past the longest duration.
    refine (Nat.min_eq_right ?_).symm
    calc max.nanos ≤ 2 ^ (64 : ℕ) * nanosPerSecond := Nat.sub_le _ 1
      _ = roundDiv (2 ^ (64 : ℕ) * nanosPerSecond * unitsInOne) unitsInOne :=
        (roundDiv_mul _ _ unitsInOne_pos).symm
      _ ≤ roundDiv (units * nanosPerSecond) unitsInOne := by
        refine roundDiv_mono unitsInOne_pos unitsInOne_pos (Nat.mul_le_mul_right _ ?_)
        rw [Nat.mul_right_comm]
        exact Nat.mul_le_mul_right _ (not_lt.1 long)

/-- Greater positive doubles have longer nearest durations. -/
theorem nearestClamped_mono {z : Binary64} {w : ℚ} (h : Denotes y x) (h' : Denotes z w) (positive : 0 < x)
    (order : x ≤ w) : (nearestClamped y).nanos ≤ (nearestClamped z).nanos := by
  obtain ⟨m, fitsm, rfl, rfl⟩ := h.exists_eq_finite positive
  obtain ⟨n, fitsn, rfl, rfl⟩ := h'.exists_eq_finite (positive.trans_le order)
  rw [div_le_div_iff_of_pos_right unitScale_pos, Nat.cast_le] at order
  rw [nanos_nearestClamped, nanos_nearestClamped]
  refine min_le_min_right _ (roundDiv_mono unitsInOne_pos unitsInOne_pos ?_)
  exact Nat.mul_le_mul_right _ (Nat.mul_le_mul_right _ order)

/-- A covering duration is the nearest one, or the next where that falls short. -/
theorem covering_of_pos (h : Denotes y x) (positive : 0 < x) :
    covering y =
      if (nearestClamped y).seconds < y then ofNanosClamped ((nearestClamped y).nanos + 1)
      else nearestClamped y := by
  have some : ¬(y.isNaN = true ∨ y ≤ 0) := by
    rw [h.isNaN, h.le_iff denotes_ofNat_zero, not_or]
    exact ⟨Bool.false_ne_true, not_le.2 positive⟩
  rw [covering, if_neg some, nearestClamped]

theorem nanos_covering (h : Denotes y x) (positive : 0 < x) :
    (covering y).nanos =
      if (nearestClamped y).roundedSeconds < x then Nat.min ((nearestClamped y).nanos + 1) max.nanos
      else (nearestClamped y).nanos := by
  rw [covering_of_pos h positive]
  simp only [(nearestClamped y).denotes_seconds.lt_iff h]
  split
  · exact nanos_ofNanosClamped _
  · rfl

theorem covering_bounds (h : Denotes y x) (positive : 0 < x) :
    (nearestClamped y).nanos ≤ (covering y).nanos ∧ (covering y).nanos ≤ (nearestClamped y).nanos + 1 := by
  have top := nanos_le_max (nearestClamped y)
  rw [nanos_covering h positive]
  split
  · exact ⟨le_min (Nat.le_succ _) top, Nat.min_le_left _ _⟩
  · exact ⟨le_rfl, Nat.le_succ _⟩

theorem covering_of_le_zero (none : y ≤ 0) : covering y = zero := if_pos (.inr none)

theorem covering_infinity : covering (.infinity false) = max := by decide +kernel

/-- More seconds are covered by a duration that is no shorter. -/
theorem covering_mono {z : Binary64} (order : y ≤ z) : (covering y).nanos ≤ (covering z).nanos := by
  rcases cases_of_le order with ⟨rfl, -⟩ | ⟨-, rfl⟩ | ⟨x, w, h, h', order⟩
  · rw [covering_of_le_zero (infinity_true_le denotes_ofNat_zero.isNaN)]
    exact Nat.zero_le _
  · rw [covering_infinity]
    exact nanos_le_max _
  · rcases le_or_gt x 0 with none | positive
    · rw [covering_of_le_zero ((h.le_iff denotes_ofNat_zero).2 none)]
      exact Nat.zero_le _
    · rcases Nat.lt_or_eq_of_le (nearestClamped_mono h h' positive order) with less | same
      · -- One nanosecond more does not pass a longer duration.
        have low := (covering_bounds h positive).2
        have high := (covering_bounds h' (positive.trans_le order)).1
        omega
      · have seconds : (nearestClamped y).roundedSeconds = (nearestClamped z).roundedSeconds :=
          le_antisymm (roundedSeconds_mono same.le) (roundedSeconds_mono same.ge)
        rw [nanos_covering h positive, seconds, same]
        split
        case isTrue short =>
          rw [nanos_covering h' (positive.trans_le order), if_pos (short.trans_le order)]
        case isFalse => exact (covering_bounds h' (positive.trans_le order)).1

/-- The seconds of a duration, rounded up, are not computed to be shorter. -/
theorem roundedSeconds_le_of_secondsRoundedUp (whole : e.nanos = d.secondsRoundedUp * nanosPerSecond) :
    d.roundedSeconds ≤ e.roundedSeconds := by
  rcases Nat.lt_or_ge d.wholeSeconds (2 ^ (64 : ℕ) - 1) with fits | full
  · apply roundedSeconds_mono
    have parts : nanosPerSecond * d.wholeSeconds + d.subsecNanos = d.nanos := Nat.div_add_mod ..
    have part := d.subsecNanos_lt
    simp only [whole, secondsRoundedUp, Nat.min_def, nanosPerSecond] at *
    split_ifs <;> omega
  · -- No more seconds can be told, but as many are computed.
    have up : d.secondsRoundedUp = d.wholeSeconds := by
      have := d.wholeSeconds_lt
      simp only [secondsRoundedUp, Nat.min_def]
      split_ifs <;> omega
    have same : e.wholeSeconds = d.wholeSeconds := by
      rw [wholeSeconds, whole, up, Nat.mul_div_cancel _ (by decide)]
    have large : 2 ^ (53 : ℕ) ≤ d.wholeSeconds := le_trans (by decide) full
    rw [roundedSeconds_of_large large, roundedSeconds_of_large (same ▸ large), same]

end Duration

/-- What was waited is the time that has passed. -/
theorem Instant.since_eq_of_add?_eq {t u : Instant} {d : Duration} (h : t.add? d = some u) :
    t.since u = d := by
  have nanos := nanos_ofNanos? h
  cases d with
  | mk nanos' bound =>
    rw [since, Duration.mk.injEq, nanos, add_sub_cancel_left]
    exact Int.toNat_natCast nanos'

/-! ### What a wait gives -/

variable {q : Quota} {d e : Duration}

/-- More time gives no fewer credits. -/
theorem accrual_mono (longer : d.nanos ≤ e.nanos) : accrual q d ≤ accrual q e :=
  rounded_mono <|
    mul_le_mul_of_nonneg_right (Duration.roundedSeconds_mono longer) q.roundedRate_pos.le

section

variable {y : Binary64} {g : ℚ}

/-- The seconds that credits take are neither tiny nor huge where the credits are not. -/
theorem div_roundedRate_bounds (low : 1 / 2 ^ 53 ≤ g) (high : g ≤ 2 ^ 65) :
    1 / 2 ^ 148 ≤ g / q.roundedRate ∧ g / q.roundedRate ≤ 2 ^ 129 := by
  rw [le_div_iff₀ q.roundedRate_pos, div_le_iff₀ q.roundedRate_pos]
  constructor
  · linarith [q.roundedRate_le]
  · linarith [q.le_roundedRate]

theorem div_roundedRate_pos (low : 1 / 2 ^ 53 ≤ g) : 0 < g / q.roundedRate :=
  div_pos (lt_of_lt_of_le (by positivity) low) q.roundedRate_pos

/-- The double computed for the seconds that credits take. -/
theorem denotes_div_rate (h : Denotes y g) (low : 1 / 2 ^ 53 ≤ g) (high : g ≤ 2 ^ 65) :
    Denotes (y / q.rate) (rounded (g / q.roundedRate)) := by
  refine h.div q.denotes_rate q.roundedRate_pos.ne' ?_
  rw [abs_of_pos (div_roundedRate_pos low)]
  exact le_ample (div_roundedRate_bounds low high).2 (by omega)

theorem rounded_div_roundedRate_bounds (low : 1 / 2 ^ 53 ≤ g) (high : g ≤ 2 ^ 65) :
    g / q.roundedRate * (1 - roundoff) ≤ rounded (g / q.roundedRate) ∧
      rounded (g / q.roundedRate) ≤ g / q.roundedRate * (1 + roundoff) := by
  have positive : 0 < g / q.roundedRate := div_roundedRate_pos low
  refine rounded_bounds positive.le (abs_rounded_sub_le (leastNormal_le (k := 148) ?_ (by omega)))
  rw [abs_of_pos positive]
  linarith [(div_roundedRate_bounds (q := q) low high).1]

theorem rounded_div_roundedRate_pos (low : 1 / 2 ^ 53 ≤ g) (high : g ≤ 2 ^ 65) :
    0 < rounded (g / q.roundedRate) :=
  (mul_pos (div_roundedRate_pos low) (by norm_num [roundoff])).trans_le
    (rounded_div_roundedRate_bounds low high).1

/-- The seconds computed give the credits less a rounding. -/
theorem mul_le_of_rounded_div_le (low : 1 / 2 ^ 53 ≤ g) (high : g ≤ 2 ^ 65) {seconds : ℚ}
    (covered : rounded (g / q.roundedRate) ≤ seconds) : g * (1 - roundoff) ≤ seconds * q.roundedRate := by
  rw [← div_le_iff₀ q.roundedRate_pos, mul_div_right_comm]
  exact (rounded_div_roundedRate_bounds low high).1.trans covered

/-- What is waited for as long as some credits take gives these credits, up to two roundings, or one credit
where there is no duration so long. -/
theorem min_le_accrual_of_covering (h : Denotes y g) (low : 1 / 2 ^ 53 ≤ g) (high : g ≤ 2)
    (enough : (Duration.covering (y / q.rate)).roundedSeconds ≤ d.roundedSeconds) :
    rounded (g * (1 - roundoff)) ⊓ 1 ≤ accrual q d := by
  have high : g ≤ 2 ^ 65 := high.trans (by norm_num)
  have seconds := denotes_div_rate (q := q) h low high
  rcases inf_le_iff.1 ((Duration.min_le_roundedSeconds_covering seconds).trans enough) with covered | longest
  · exact inf_le_left.trans (rounded_mono (mul_le_of_rounded_div_le low high covered))
  · have product := mul_le_mul longest q.le_roundedRate (by positivity) d.roundedSeconds_nonneg
    exact inf_le_right.trans (one_le_rounded (le_trans (by norm_num) product))

/-- Durations one after the other are computed to be no shorter than both of them, up to four roundings. -/
theorem roundedSeconds_add_le {w : Duration} (sum : e.nanos = d.nanos + w.nanos) :
    (d.roundedSeconds + w.roundedSeconds) * (1 - roundoff) ^ 2 ≤ e.roundedSeconds * (1 + roundoff) ^ 2 := by
  have exact : e.exactSeconds = d.exactSeconds + w.exactSeconds := by
    rw [Duration.exactSeconds, sum, Nat.cast_add, add_div, ← Duration.exactSeconds, ← Duration.exactSeconds]
  have first := d.roundedSeconds_bounds.2
  have second := w.roundedSeconds_bounds.2
  have both := e.roundedSeconds_bounds.1
  rw [exact] at both
  norm_num [roundoff] at first second both ⊢
  linarith

/-- What is waited for as long as some credits take gives these credits on top of what was given before the
wait, up to six roundings and less than a rounding of one, if there is a duration so long. -/
theorem add_mul_le_accrual (h : Denotes y g) (nonneg : 0 ≤ g) (high : g ≤ 2 ^ 65)
    (told : y / q.rate ≤ Duration.max.seconds)
    (sum : e.nanos = d.nanos + (Duration.covering (y / q.rate)).nanos) :
    (accrual q d + g) * (1 - 6 * roundoff) ≤ accrual q e + roundoff := by
  have positive := roundoff_pos
  have before := accrual_nonneg q d
  rcases lt_or_ge g roundoff with tiny | low
  · have mono : accrual q d ≤ accrual q e := accrual_mono (sum ▸ Nat.le_add_right _ _)
    have less : (accrual q d + g) * (1 - 6 * roundoff) ≤ accrual q d + g :=
      mul_le_of_le_one_right (by linarith) (by linarith)
    linarith
  · have low : 1 / 2 ^ 53 ≤ g := low
    have seconds := denotes_div_rate (q := q) h low high
    have fits : rounded (g / q.roundedRate) ≤ 2 ^ 64 := by
      rw [← Duration.roundedSeconds_max]
      exact (seconds.le_iff Duration.max.denotes_seconds).1 told
    have covered := Duration.min_le_roundedSeconds_covering seconds
    rw [inf_eq_left.2 fits] at covered
    have waited := mul_le_of_rounded_div_le low high covered
    have both := mul_le_mul_of_nonneg_right (roundedSeconds_add_le sum) q.roundedRate_pos.le
    have first := (accrual_bounds q d).2
    have last := (accrual_bounds q e).1
    have total := seconds_mul_rate_nonneg q e
    have part := seconds_mul_rate_nonneg q d
    -- All of these are linear in the products of seconds and rate.
    rw [mul_right_comm, add_mul, mul_right_comm e.roundedSeconds] at both
    norm_num [roundoff] at waited both first last ⊢
    linarith

end

end Admission
