import Admission.Proofs.Binary64.Value
import Admission.Quota
import Admission.Time.Instant

/-!
# Durations and rates in doubles

A duration in seconds and a quota's rate are computed in doubles. What they stand for lies within a few
roundings of the exact numbers.

## Main definitions

* `Duration.exactSeconds`, `Duration.roundedSeconds`: a duration in seconds, exactly and as computed.
* `Quota.exactRate`, `Quota.roundedRate`: credits per second, exactly and as computed.
* `accrual`: the credits that a quota gives for a duration, as computed.

## Main results

* `Duration.denotes_seconds`, `Quota.denotes_rate`, `denotes_accrual`: what the doubles stand for.
* `Duration.roundedSeconds_bounds`, `Quota.roundedRate_bounds`, `accrual_bounds`, `accrual_le`: how far that is
  from the exact numbers.
-/

namespace Admission

open Binary64

-- Powers of natural numbers are the core library's, whatever else is in scope.
attribute [local instance (high)] instPowNat

namespace Duration

variable (d : Duration)

/-- The seconds of a duration, exactly. -/
def exactSeconds : ℚ := d.nanos / nanosPerSecond

/-- The seconds of a duration, as computed: the whole seconds, the fraction and their sum are rounded. -/
def roundedSeconds : ℚ := rounded (rounded d.wholeSeconds + rounded (d.subsecNanos / nanosPerSecond))

theorem nanos_eq_zero {d : Duration} : d.nanos = 0 ↔ d = zero := by
  cases d
  rw [zero, mk.injEq]

theorem wholeSeconds_lt : d.wholeSeconds < 2 ^ (64 : ℕ) := by
  have := d.nanos_lt
  exact Nat.div_lt_of_lt_mul (by rwa [Nat.mul_comm])

theorem subsecNanos_lt : d.subsecNanos < nanosPerSecond := Nat.mod_lt _ (by decide)

theorem exactSeconds_eq : d.exactSeconds = d.wholeSeconds + d.subsecNanos / nanosPerSecond := by
  have parts : nanosPerSecond * d.wholeSeconds + d.subsecNanos = d.nanos := Nat.div_add_mod ..
  have nonzero : (nanosPerSecond : ℚ) ≠ 0 := by norm_num [nanosPerSecond]
  rw [exactSeconds, ← parts, Nat.cast_add, Nat.cast_mul, add_div, mul_div_cancel_left₀ _ nonzero]

theorem exactSeconds_nonneg : 0 ≤ d.exactSeconds := by
  rw [exactSeconds]
  positivity

theorem fraction_nonneg : (0 : ℚ) ≤ d.subsecNanos / nanosPerSecond := by positivity

theorem fraction_le_one : (d.subsecNanos : ℚ) / nanosPerSecond ≤ 1 := by
  have less : (d.subsecNanos : ℚ) ≤ nanosPerSecond := by exact_mod_cast d.subsecNanos_lt.le
  exact div_le_one_of_le₀ less (by positivity)

/-- The fraction of a second is no number so small that doubles lose bits. -/
theorem abs_rounded_fraction_sub_le :
    |rounded (d.subsecNanos / nanosPerSecond) - d.subsecNanos / nanosPerSecond| ≤
      |(d.subsecNanos : ℚ) / nanosPerSecond| * roundoff := by
  -- One nanosecond is about 2⁻³⁰ of a second, far above the least normal number.
  rcases Nat.eq_zero_or_pos d.subsecNanos with none | some
  · simp [none]
  · refine abs_rounded_sub_le (leastNormal_le (k := 30) ?_ (by omega))
    have one : (1 : ℚ) ≤ d.subsecNanos := by exact_mod_cast some
    rw [abs_of_nonneg d.fraction_nonneg, nanosPerSecond]
    push_cast
    linarith

theorem roundedSeconds_bounds :
    d.exactSeconds * (1 - roundoff) ^ 2 ≤ d.roundedSeconds ∧
      d.roundedSeconds ≤ d.exactSeconds * (1 + roundoff) ^ 2 := by
  obtain ⟨wholeLow, wholeHigh⟩ :=
    rounded_bounds (Nat.cast_nonneg d.wholeSeconds) (onGrid_natCast _).abs_rounded_sub_le
  obtain ⟨low, high⟩ := rounded_bounds d.fraction_nonneg d.abs_rounded_fraction_sub_le
  have nonneg := add_nonneg (rounded_nonneg (Nat.cast_nonneg d.wholeSeconds))
    (rounded_nonneg d.fraction_nonneg)
  obtain ⟨sumLow, sumHigh⟩ :=
    rounded_bounds nonneg ((onGrid_rounded _).add (onGrid_rounded _)).abs_rounded_sub_le
  -- The parts lose a factor each, and their sum another one.
  rw [exactSeconds_eq, roundedSeconds]
  constructor
  · refine le_trans ?_ sumLow
    calc ((d.wholeSeconds : ℚ) + d.subsecNanos / nanosPerSecond) * (1 - roundoff) ^ 2
        = (d.wholeSeconds * (1 - roundoff) + d.subsecNanos / nanosPerSecond * (1 - roundoff)) *
          (1 - roundoff) := by ring
      _ ≤ _ := mul_le_mul_of_nonneg_right (add_le_add wholeLow low) (by norm_num [roundoff])
  · refine sumHigh.trans ?_
    calc (rounded d.wholeSeconds + rounded (d.subsecNanos / nanosPerSecond)) * (1 + roundoff)
        ≤ (d.wholeSeconds * (1 + roundoff) + d.subsecNanos / nanosPerSecond * (1 + roundoff)) *
          (1 + roundoff) :=
          mul_le_mul_of_nonneg_right (add_le_add wholeHigh high) (by norm_num [roundoff])
      _ = _ := by ring

theorem roundedSeconds_nonneg : 0 ≤ d.roundedSeconds :=
  rounded_nonneg (add_nonneg (rounded_nonneg (Nat.cast_nonneg _)) (rounded_nonneg d.fraction_nonneg))

theorem roundedSeconds_zero : zero.roundedSeconds = 0 := by
  simp [roundedSeconds, wholeSeconds, subsecNanos, zero]

/-- The double computed for a duration stands for its computed seconds. -/
theorem denotes_seconds : Denotes d.seconds d.roundedSeconds := by
  have whole : (d.wholeSeconds : ℚ) ≤ 2 ^ 64 := by exact_mod_cast d.wholeSeconds_lt.le
  have nonzero : (nanosPerSecond : ℚ) ≠ 0 := by norm_num [nanosPerSecond]
  have fractionSmall : |(d.subsecNanos : ℚ) / nanosPerSecond| ≤ ample := by
    rw [abs_of_nonneg d.fraction_nonneg]
    exact le_ample (k := 0) (d.fraction_le_one.trans_eq (pow_zero 2).symm) (by omega)
  have fraction : Denotes (ofNat d.subsecNanos / ofNat nanosPerSecond)
      (rounded (d.subsecNanos / nanosPerSecond)) := by
    refine (denotes_natCast ?_).div (denotes_natCast (by decide)) nonzero fractionSmall
    exact d.subsecNanos_lt.le.trans (by decide)
  have wholeRounded := rounded_le_two_pow whole
  have fractionRounded := rounded_le_two_pow (k := 0) (d.fraction_le_one.trans_eq (pow_zero 2).symm)
  refine (denotes_ofNat (le_ample whole (by omega))).add fraction ?_
  rw [abs_of_nonneg (add_nonneg (rounded_nonneg (Nat.cast_nonneg _))
    (rounded_nonneg d.fraction_nonneg))]
  refine le_ample (k := 65) ?_ (by omega)
  linarith

theorem seconds_max : Duration.max.seconds = ofNat (2 ^ (64 : ℕ)) := by decide +kernel

theorem roundedSeconds_max : Duration.max.roundedSeconds = 2 ^ 64 := by
  have value : Denotes Duration.max.seconds (rounded (2 ^ (64 : ℕ) : ℕ)) := by
    rw [seconds_max]
    exact denotes_ofNat (le_ample (natCast_two_pow 64).le (by omega))
  rw [Duration.max.denotes_seconds.unique value, natCast_two_pow, rounded_two_pow]

/-- No duration is computed to have more than 2⁶⁴ seconds. -/
theorem roundedSeconds_le : d.roundedSeconds ≤ 2 ^ 64 := by
  have whole : d.wholeSeconds ≤ Duration.max.wholeSeconds := Nat.le_of_lt_succ d.wholeSeconds_lt
  have part : d.subsecNanos ≤ Duration.max.subsecNanos := Nat.le_of_lt_succ d.subsecNanos_lt
  rw [← roundedSeconds_max]
  refine rounded_mono (add_le_add (rounded_mono ?_) (rounded_mono ?_))
  · exact_mod_cast whole
  · exact div_le_div_of_nonneg_right (by exact_mod_cast part) (by positivity)

/-- A duration that is not zero is computed to have more than 2⁻³¹ seconds. -/
theorem le_roundedSeconds {d : Duration} (some : 1 ≤ d.nanos) : 1 / 2 ^ 31 ≤ d.roundedSeconds := by
  have one : (1 : ℚ) ≤ d.nanos := by exact_mod_cast some
  refine le_trans ?_ d.roundedSeconds_bounds.1
  calc (1 : ℚ) / 2 ^ 31 ≤ 1 / nanosPerSecond * (1 - roundoff) ^ 2 := by
        norm_num [nanosPerSecond, roundoff]
    _ ≤ d.exactSeconds * (1 - roundoff) ^ 2 := by
        rw [exactSeconds]
        gcongr

end Duration

theorem Instant.exactSeconds_since {t u : Instant} (forward : t.nanos ≤ u.nanos) :
    (t.since u).exactSeconds = (u.nanos - t.nanos) / nanosPerSecond := by
  have elapsed : (((t.since u).nanos : ℤ) : ℚ) = u.nanos - t.nanos := by
    rw [since, Int.toNat_of_nonneg (Int.sub_nonneg_of_le forward), Int.cast_sub]
  rw [Duration.exactSeconds, ← elapsed, Int.cast_natCast]

theorem Instant.since_eq_zero {t u : Instant} (back : u.nanos ≤ t.nanos) :
    t.since u = Duration.zero := by
  rw [since, Duration.zero, Duration.mk.injEq, Int.toNat_eq_zero]
  exact Int.sub_nonpos_of_le back

namespace Quota

variable (q : Quota)

/-- Credits per second, exactly. -/
def exactRate : ℚ := q.limit.toNat / q.interval.exactSeconds

/-- Credits per second, as computed. -/
def roundedRate : ℚ := rounded (rounded q.limit.toNat / q.interval.roundedSeconds)

theorem one_le_limit : 1 ≤ q.limit.toNat := by
  have := q.limit_ne_zero
  rw [Nat.one_le_iff_ne_zero]
  exact fun h => this (UInt64.toNat_inj.1 h)

theorem one_le_interval_nanos : 1 ≤ q.interval.nanos := by
  have := q.interval_ne_zero
  rw [Nat.one_le_iff_ne_zero]
  intro h
  apply this
  cases hi : q.interval with
  | mk nanos bound =>
    rw [hi] at h
    subst h
    rfl

theorem interval_exactSeconds_pos : 0 < q.interval.exactSeconds := by
  have := q.one_le_interval_nanos
  rw [Duration.exactSeconds, nanosPerSecond]
  positivity

theorem one_le_rounded_limit : 1 ≤ rounded q.limit.toNat :=
  one_le_rounded (by exact_mod_cast q.one_le_limit)

theorem rounded_limit_le : rounded q.limit.toNat ≤ 2 ^ 64 :=
  rounded_le_two_pow (by exact_mod_cast q.limit.toNat_lt.le)

theorem interval_roundedSeconds_pos : 0 < q.interval.roundedSeconds :=
  lt_of_lt_of_le (by positivity) (Duration.le_roundedSeconds q.one_le_interval_nanos)

/-- The quotient that is rounded to a rate is neither tiny nor too large. -/
theorem limit_div_interval_bounds :
    1 / 2 ^ 64 ≤ rounded q.limit.toNat / q.interval.roundedSeconds ∧
      rounded q.limit.toNat / q.interval.roundedSeconds ≤ 2 ^ 95 := by
  have positive := q.interval_roundedSeconds_pos
  have low := Duration.le_roundedSeconds q.one_le_interval_nanos
  have high := q.interval.roundedSeconds_le
  have one := q.one_le_rounded_limit
  have limit := q.rounded_limit_le
  rw [le_div_iff₀ positive, div_le_iff₀ positive]
  constructor <;> linarith

theorem roundedRate_bounds :
    q.exactRate * ((1 - roundoff) ^ 2 / (1 + roundoff) ^ 2) ≤ q.roundedRate ∧
      q.roundedRate ≤ q.exactRate * ((1 + roundoff) ^ 2 / (1 - roundoff) ^ 2) := by
  obtain ⟨limitLow, limitHigh⟩ :=
    rounded_bounds (Nat.cast_nonneg q.limit.toNat) (onGrid_natCast _).abs_rounded_sub_le
  obtain ⟨secondsLow, secondsHigh⟩ := q.interval.roundedSeconds_bounds
  have interval := q.interval_exactSeconds_pos
  have seconds := q.interval_roundedSeconds_pos
  have size := q.limit_div_interval_bounds.1
  have nonneg : 0 ≤ rounded q.limit.toNat / q.interval.roundedSeconds := le_trans (by positivity) size
  obtain ⟨low, high⟩ := rounded_bounds nonneg <| abs_rounded_sub_le <|
    leastNormal_le (k := 64) (by rw [abs_of_nonneg nonneg]; linarith) (by omega)
  have limit := rounded_nonneg (Nat.cast_nonneg q.limit.toNat)
  have below : 0 < 1 - roundoff := by norm_num [roundoff]
  have above : 0 < 1 + roundoff := by norm_num [roundoff]
  -- The limit is rounded once, the interval twice, and their quotient once more.
  rw [exactRate, roundedRate]
  constructor
  · refine le_trans ?_ low
    calc (q.limit.toNat : ℚ) / q.interval.exactSeconds * ((1 - roundoff) ^ 2 / (1 + roundoff) ^ 2)
        = q.limit.toNat * (1 - roundoff) / (q.interval.exactSeconds * (1 + roundoff) ^ 2) *
          (1 - roundoff) := by field_simp
      _ ≤ _ := by gcongr
  · refine high.trans ?_
    calc rounded q.limit.toNat / q.interval.roundedSeconds * (1 + roundoff)
        ≤ q.limit.toNat * (1 + roundoff) / (q.interval.exactSeconds * (1 - roundoff) ^ 2) *
          (1 + roundoff) := by gcongr
      _ = _ := by field_simp

/-- No rate is computed to be less than 2⁻⁶⁴. -/
theorem le_roundedRate : 1 / 2 ^ 64 ≤ q.roundedRate := by
  have kept := rounded_div_two_pow (m := 1) (k := 64) (by decide) (by omega)
  rw [Nat.cast_one] at kept
  exact kept ▸ rounded_mono q.limit_div_interval_bounds.1

theorem roundedRate_le : q.roundedRate ≤ 2 ^ 95 := rounded_le_two_pow q.limit_div_interval_bounds.2

theorem roundedRate_pos : 0 < q.roundedRate := lt_of_lt_of_le (by positivity) q.le_roundedRate

/-- The double computed for a rate stands for the computed rate. -/
theorem denotes_rate : Denotes q.rate q.roundedRate := by
  have limit : (q.limit.toNat : ℚ) ≤ 2 ^ 64 := by exact_mod_cast q.limit.toNat_lt.le
  obtain ⟨low, high⟩ := q.limit_div_interval_bounds
  refine (denotes_ofNat (le_ample limit (by omega))).div q.interval.denotes_seconds
    q.interval_roundedSeconds_pos.ne' ?_
  rw [abs_of_nonneg (le_trans (by positivity) low)]
  exact le_ample high (by omega)

end Quota

/-! ### Accrual -/

/-- The credits that a quota gives for a duration, as computed. -/
def accrual (q : Quota) (d : Duration) : ℚ := rounded (d.roundedSeconds * q.roundedRate)

variable (q : Quota) (d : Duration)

theorem seconds_mul_rate_nonneg : 0 ≤ d.roundedSeconds * q.roundedRate :=
  mul_nonneg d.roundedSeconds_nonneg q.roundedRate_pos.le

theorem accrual_nonneg : 0 ≤ accrual q d := rounded_nonneg (seconds_mul_rate_nonneg q d)

theorem seconds_mul_rate_le : d.roundedSeconds * q.roundedRate ≤ 2 ^ 159 := by
  calc d.roundedSeconds * q.roundedRate ≤ 2 ^ 64 * 2 ^ 95 :=
        mul_le_mul d.roundedSeconds_le q.roundedRate_le q.roundedRate_pos.le (by positivity)
    _ = 2 ^ 159 := by norm_num

theorem accrual_le_two_pow : accrual q d ≤ 2 ^ 159 := rounded_le_two_pow (seconds_mul_rate_le q d)

theorem onGrid_accrual : OnGrid (accrual q d) := onGrid_rounded _

theorem accrual_zero : accrual q Duration.zero = 0 := by
  rw [accrual, Duration.roundedSeconds_zero, zero_mul, rounded_zero]

/-- The product computed for a duration and a rate stands for the accrual. -/
theorem denotes_accrual : Denotes (d.seconds * q.rate) (accrual q d) := by
  refine d.denotes_seconds.mul q.denotes_rate ?_
  rw [abs_of_nonneg (seconds_mul_rate_nonneg q d)]
  exact le_ample (seconds_mul_rate_le q d) (by omega)

/-- The product is rounded once. -/
theorem accrual_bounds :
    d.roundedSeconds * q.roundedRate * (1 - roundoff) ≤ accrual q d ∧
      accrual q d ≤ d.roundedSeconds * q.roundedRate * (1 + roundoff) := by
  -- Only a product that is tiny could lose more than a factor, and then no time has passed.
  rcases Nat.eq_zero_or_pos d.nanos with none | some
  · rw [Duration.nanos_eq_zero.1 none, accrual_zero, Duration.roundedSeconds_zero, zero_mul, zero_mul, zero_mul]
    exact ⟨le_rfl, le_rfl⟩
  · have low := mul_le_mul (Duration.le_roundedSeconds some) q.le_roundedRate (by positivity)
      d.roundedSeconds_nonneg
    have nonneg := seconds_mul_rate_nonneg q d
    refine rounded_bounds nonneg (abs_rounded_sub_le (leastNormal_le (k := 95) ?_ (by omega)))
    rw [abs_of_nonneg nonneg]
    linarith

/-- The computed accrual exceeds the exact one by a factor of at most 1 + 2⁻⁵⁰. -/
theorem accrual_le : accrual q d ≤ q.exactRate * d.exactSeconds * (1 + 1 / 2 ^ 50) := by
  have rateNonneg : 0 ≤ q.exactRate := div_nonneg (Nat.cast_nonneg _) q.interval.exactSeconds_nonneg
  have seconds := d.roundedSeconds_bounds.2
  have rate := q.roundedRate_bounds.2
  have exact := d.exactSeconds_nonneg
  calc accrual q d ≤ d.roundedSeconds * q.roundedRate * (1 + roundoff) := (accrual_bounds q d).2
    _ ≤ d.exactSeconds * (1 + roundoff) ^ 2 *
        (q.exactRate * ((1 + roundoff) ^ 2 / (1 - roundoff) ^ 2)) * (1 + roundoff) := by
      have := q.roundedRate_pos.le
      have := roundoff_pos.le
      gcongr
    _ = q.exactRate * d.exactSeconds * ((1 + roundoff) ^ 5 / (1 - roundoff) ^ 2) := by ring
    _ ≤ q.exactRate * d.exactSeconds * (1 + 1 / 2 ^ 50) := by
      gcongr
      norm_num [roundoff]

end Admission
