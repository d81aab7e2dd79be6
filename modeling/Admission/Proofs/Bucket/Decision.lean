import Admission.Bucket.Basic
import Admission.Proofs.Binary64.Range
import Admission.Proofs.Time.Seconds

/-!
# Decisions in rational numbers

What a bucket decides on one request, told in the rational numbers that the doubles stand for.

## Main definitions

* `slack`, `Quota.roundedBurst`: the slack and the burst, as computed.
* `TokenBucket.ready`: the credits ready after a while.
* `LeakyBucket.drained`: the level left after a while.

## Main results

* `TokenBucket.decide_spec`, `LeakyBucket.decide_spec`: whether a request is admitted, and what its
  standing stands for afterwards; `decide_spec_of_denotes` tells it from what the request finds.
-/

namespace Admission

open Binary64

-- Powers of natural numbers are the core library's, whatever else is in scope.
attribute [local instance (high)] instPowNat

/-- What one credit may fall short by, as computed. -/
def slack : ℚ := rounded (1 / 10 ^ 9)

theorem denotes_creditSlack : Denotes creditSlack slack := by
  have small : ((1 : ℕ) : ℚ) / (1000000000 : ℕ) ≤ 2 ^ 0 := by norm_num
  have := denotes_nearest (by decide) (le_ample small (by omega))
  rwa [show ((1 : ℕ) : ℚ) / (1000000000 : ℕ) = 1 / 10 ^ 9 by norm_num] at this

theorem slack_bounds : 1 / 10 ^ 9 * (1 - roundoff) ≤ slack ∧ slack ≤ 1 / 10 ^ 9 * (1 + roundoff) :=
  rounded_bounds (by norm_num) <| abs_rounded_sub_le <| leastNormal_le (k := 30) (by norm_num) (by omega)

theorem slack_pos : 0 < slack := lt_of_lt_of_le (by norm_num [roundoff]) slack_bounds.1

theorem slack_le : slack ≤ 1 / 2 := slack_bounds.2.trans (by norm_num [roundoff])

/-- The slack is computed to be no less than it is. -/
theorem one_div_le_slack : 1 / 10 ^ 9 ≤ slack := by
  have units : unitsInOne ≤ roundUnits unitsInOne 1000000000 * 1000000000 := by decide +kernel
  have exact : (1 / 10 ^ 9 : ℚ) * unitScale = (unitsInOne : ℕ) / (1000000000 : ℕ) := by
    rw [unitScale]
    push_cast
    ring
  rw [slack, rounded_of_nonneg (by positivity), exact, nearestUnits_div (by decide),
    le_div_iff₀ unitScale_pos, exact, div_le_iff₀ (by norm_num)]
  exact_mod_cast units

/-! Credits that accrue, the slack and a unit are small against the steps between the greatest doubles. -/

theorem abs_accrual_lt (q : Quota) (d : Duration) : |accrual q d| < 2 ^ 970 := by
  rw [abs_of_nonneg (accrual_nonneg q d)]
  exact (accrual_le_two_pow q d).trans_lt (pow_lt_pow_right₀ one_lt_two (by omega))

theorem abs_one_lt : |(1 : ℚ)| < 2 ^ 970 := by
  rw [abs_one]
  exact one_lt_pow₀ one_lt_two (by omega)

theorem abs_slack_lt : |slack| < 2 ^ 970 := by
  rw [abs_of_pos slack_pos]
  exact (slack_le.trans_lt (by norm_num)).trans (abs_one.symm.trans_lt abs_one_lt)

namespace Quota

variable (q : Quota)

/-- The burst, as computed. -/
def roundedBurst : ℚ := rounded q.burst.toNat

theorem roundedBurst_nonneg : 0 ≤ q.roundedBurst := rounded_nonneg (Nat.cast_nonneg _)

theorem roundedBurst_le : q.roundedBurst ≤ 2 ^ 64 :=
  rounded_le_two_pow (by exact_mod_cast q.burst.toNat_lt.le)

theorem abs_roundedBurst_lt : |q.roundedBurst| < 2 ^ 970 := by
  rw [abs_of_nonneg q.roundedBurst_nonneg]
  exact q.roundedBurst_le.trans_lt (pow_lt_pow_right₀ one_lt_two (by omega))

theorem denotes_ceiling : Denotes q.ceiling q.roundedBurst :=
  denotes_ofNat (le_ample (k := 64) (by exact_mod_cast q.burst.toNat_lt.le) (by omega))

variable {q}

theorem one_le_roundedBurst (some : 1 ≤ q.burst.toNat) : 1 ≤ q.roundedBurst :=
  one_le_rounded (by exact_mod_cast some)

/-- A burst below 2⁵³ is computed exactly. -/
theorem roundedBurst_eq (small : q.burst.toNat < 2 ^ (53 : ℕ)) : q.roundedBurst = q.burst.toNat :=
  rounded_natCast small.le

/-- One credit is within the burst, up to the slack, if there is any burst. -/
theorem one_le_rounded_burst_add_slack_iff :
    1 ≤ rounded (q.roundedBurst + slack) ↔ q.burst ≠ 0 := by
  constructor
  · rintro enough none
    rw [roundedBurst, none, UInt64.toNat_zero, Nat.cast_zero, rounded_zero, zero_add,
      denotes_creditSlack.rounded_eq] at enough
    linarith [slack_le]
  · intro some
    have one : 1 ≤ q.burst.toNat := Nat.one_le_iff_ne_zero.2 fun none => some (UInt64.toNat_inj.1 none)
    exact one_le_rounded (by linarith [one_le_roundedBurst one, slack_pos])

end Quota

/-! ### Token buckets -/

namespace TokenBucket

variable (q : Quota) {s : Standing} (now : Instant) {a c : ℚ} (d : Duration)

/-- The credits ready after a while, from the credits before it. -/
def ready (c : ℚ) : ℚ := rounded (c + accrual q d) ⊓ q.roundedBurst

/-- The credits that a request finds. -/
theorem denotes_available (h : Denotes s.credits c) :
    Denotes (available q s now) (ready q (s.lastUpdate.since now) c) :=
  (h.add_of_small (denotes_accrual q _) (abs_accrual_lt q _)).min q.denotes_ceiling

@[simp]
theorem decide_allowed : (decide q s now).1.allowed = admits q s now := by rw [decide]

@[simp]
theorem decide_credits : (decide q s now).2.credits = left q s now := by rw [decide]

@[simp]
theorem decide_remaining : (decide q s now).1.remaining = (left q s now).floorClamped := by rw [decide]

@[simp]
theorem decide_lastUpdate : (decide q s now).2.lastUpdate = now := rfl

@[simp]
theorem preview_allowed : (preview q s now).allowed = admits q s now := by rw [preview]

@[simp]
theorem preview_resetTime : (preview q s now).resetTime = resetTime q s now := by rw [preview]

@[simp]
theorem preview_retryAfter : (preview q s now).retryAfter = retryAfter q s now := by rw [preview]

@[simp]
theorem preview_remaining : (preview q s now).remaining = (available q s now).floorClamped := by
  rw [preview]

@[simp]
theorem decide_resetTime : (decide q s now).1.resetTime = resetTime q s now := by rw [decide]

@[simp]
theorem decide_retryAfter : (decide q s now).1.retryAfter = retryAfter q s now := by rw [decide]

/-- A denial tells to wait for the rest of one credit. -/
theorem retryAfter_of_denied (denied : (decide q s now).1.allowed = false) :
    (decide q s now).1.retryAfter = Duration.covering ((1 - available q s now) / q.rate) := by
  rw [decide_allowed] at denied
  rw [decide_retryAfter, retryAfter, denied, if_neg Bool.false_ne_true]

/-- At the instant of the last update nothing has accrued. -/
theorem denotes_available_of_lastUpdate_eq (h : Denotes s.credits c) (same : s.lastUpdate = now) :
    Denotes (available q s now) (c ⊓ q.roundedBurst) := by
  have found := denotes_available q now h
  rwa [same, Instant.since_self, ready, accrual_zero, add_zero, h.rounded_eq] at found

/-- A request is admitted when one credit is found up to the slack, and then takes one credit. -/
theorem decide_spec_of_denotes (found : Denotes (available q s now) a) :
    ((decide q s now).1.allowed = true ↔ 1 ≤ rounded (a + slack)) ∧
      Denotes (decide q s now).2.credits
        (if (decide q s now).1.allowed then rounded (a - 1) else a) := by
  have admission : admits q s now = true ↔ 1 ≤ rounded (a + slack) :=
    decide_eq_true_iff.trans <|
      denotes_ofNat_one.le_iff (found.add_of_small denotes_creditSlack abs_slack_lt)
  rw [decide_allowed, decide_credits, left]
  refine ⟨admission, ?_⟩
  split
  · exact found.sub_of_small denotes_ofNat_one abs_one_lt
  · exact found

/-- A request is admitted when one credit is ready up to the slack, and then takes one credit. -/
theorem decide_spec (h : Denotes s.credits c) :
    ((decide q s now).1.allowed = true ↔
      1 ≤ rounded (ready q (s.lastUpdate.since now) c + slack)) ∧
      Denotes (decide q s now).2.credits
        (if (decide q s now).1.allowed then rounded (ready q (s.lastUpdate.since now) c - 1)
          else ready q (s.lastUpdate.since now) c) :=
  decide_spec_of_denotes q now (denotes_available q now h)

end TokenBucket

/-! ### Leaky buckets -/

namespace LeakyBucket

variable (q : Quota) {s : Standing} (now : Instant) {l m : ℚ} (d : Duration)

/-- The level left after a while, from the level before it. -/
def drained (l : ℚ) : ℚ := rounded (l - accrual q d) ⊔ 0

/-- The level that a request finds. -/
theorem denotes_level (h : Denotes s.credits l) :
    Denotes (level q s now) (drained q (s.lastUpdate.since now) l) :=
  (h.sub_of_small (denotes_accrual q _) (abs_accrual_lt q _)).max denotes_ofNat_zero

@[simp]
theorem decide_allowed : (decide q s now).1.allowed = admits q s now := by rw [decide]

@[simp]
theorem decide_credits : (decide q s now).2.credits = filled q s now := by rw [decide]

@[simp]
theorem decide_remaining :
    (decide q s now).1.remaining = (q.ceiling - filled q s now).floorClamped := by rw [decide]

@[simp]
theorem decide_lastUpdate : (decide q s now).2.lastUpdate = now := rfl

@[simp]
theorem preview_allowed : (preview q s now).allowed = admits q s now := by rw [preview]

@[simp]
theorem preview_resetTime : (preview q s now).resetTime = resetTime q s now := by rw [preview]

@[simp]
theorem preview_retryAfter : (preview q s now).retryAfter = retryAfter q s now := by rw [preview]

@[simp]
theorem preview_remaining :
    (preview q s now).remaining = (q.ceiling - level q s now).floorClamped := by rw [preview]

@[simp]
theorem decide_resetTime : (decide q s now).1.resetTime = resetTime q s now := by rw [decide]

@[simp]
theorem decide_retryAfter : (decide q s now).1.retryAfter = retryAfter q s now := by rw [decide]

/-- A denial tells to wait until one unit has drained. -/
theorem retryAfter_of_denied (denied : (decide q s now).1.allowed = false) :
    (decide q s now).1.retryAfter = Duration.covering (1 / q.rate) := by
  rw [decide_allowed] at denied
  rw [decide_retryAfter, retryAfter, denied, if_neg Bool.false_ne_true]

/-- At the instant of the last update nothing has drained. -/
theorem denotes_level_of_lastUpdate_eq (h : Denotes s.credits l) (same : s.lastUpdate = now) :
    Denotes (level q s now) (l ⊔ 0) := by
  have found := denotes_level q now h
  rwa [same, Instant.since_self, drained, accrual_zero, sub_zero, h.rounded_eq] at found

/-- A request is admitted when one more unit fits up to the slack, and then pours one unit. -/
theorem decide_spec_of_denotes (found : Denotes (level q s now) m) :
    ((decide q s now).1.allowed = true ↔
      rounded (m + 1) ≤ rounded (q.roundedBurst + slack)) ∧
      Denotes (decide q s now).2.credits
        (if (decide q s now).1.allowed then rounded (m + 1) else m) := by
  have poured := found.add_of_small denotes_ofNat_one abs_one_lt
  have admission : admits q s now = true ↔ rounded (m + 1) ≤ rounded (q.roundedBurst + slack) :=
    decide_eq_true_iff.trans <|
      poured.le_iff (q.denotes_ceiling.add_of_small denotes_creditSlack abs_slack_lt)
  rw [decide_allowed, decide_credits, filled]
  refine ⟨admission, ?_⟩
  split
  · exact poured
  · exact found

/-- A request is admitted when one more unit fits after draining, and then pours one unit. -/
theorem decide_spec (h : Denotes s.credits l) :
    ((decide q s now).1.allowed = true ↔
      rounded (drained q (s.lastUpdate.since now) l + 1) ≤ rounded (q.roundedBurst + slack)) ∧
      Denotes (decide q s now).2.credits
        (if (decide q s now).1.allowed then rounded (drained q (s.lastUpdate.since now) l + 1)
          else drained q (s.lastUpdate.since now) l) :=
  decide_spec_of_denotes q now (denotes_level q now h)

end LeakyBucket

end Admission
