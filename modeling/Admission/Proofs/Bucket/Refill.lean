import Admission.Proofs.Bucket.Bounds
import Admission.Proofs.Bucket.Rest

/-!
# Refilling in two steps

A denied request brings its standing up to date. Nothing is lost by that and nothing is gained: what is found
later is what would have been found without the request, up to a few roundings. For the time up to a later
instant is computed, up to roundings, to be the time up to the denial and the time after it; and capping the
credits at the burst on the way does not matter where they are capped in the end.

## Main results

* `accrual_add_bounds`: what accrues in a time is what accrues in its two parts.
* `TokenBucket.abs_ready_ready_sub_le`: a refill in two steps gives what a refill in one gives.
* `TokenBucket.abs_available_after_denial_sub_le`: a denied request does not change what is found later.
-/

namespace Admission

open Binary64

-- Powers of natural numbers are the core library's, whatever else is in scope.
attribute [local instance (high)] instPowNat

variable {q : Quota} {d e w : Duration}

/-! ### Two spans of time -/

/-- Durations one after the other are computed to be no longer than both of them, up to four roundings. -/
theorem roundedSeconds_le_add (sum : e.nanos = d.nanos + w.nanos) :
    e.roundedSeconds * (1 - roundoff) ^ 2 ≤ (d.roundedSeconds + w.roundedSeconds) * (1 + roundoff) ^ 2 := by
  have exact : e.exactSeconds = d.exactSeconds + w.exactSeconds := by
    rw [Duration.exactSeconds, sum, Nat.cast_add, add_div, ← Duration.exactSeconds, ← Duration.exactSeconds]
  have first := d.roundedSeconds_bounds.1
  have second := w.roundedSeconds_bounds.1
  have both := e.roundedSeconds_bounds.2
  rw [exact] at both
  norm_num [roundoff] at first second both ⊢
  linarith

/-- What accrues in a time is what accrues in its two parts, up to six roundings. -/
theorem accrual_add_bounds (q : Quota) (sum : e.nanos = d.nanos + w.nanos) :
    (accrual q d + accrual q w) * (1 - 6 * roundoff) ≤ accrual q e ∧
      accrual q e * (1 - 6 * roundoff) ≤ accrual q d + accrual q w := by
  have rate := q.roundedRate_pos.le
  have low := mul_le_mul_of_nonneg_right (roundedSeconds_add_le sum) rate
  have high := mul_le_mul_of_nonneg_right (roundedSeconds_le_add sum) rate
  obtain ⟨firstLow, firstHigh⟩ := accrual_bounds q d
  obtain ⟨secondLow, secondHigh⟩ := accrual_bounds q w
  obtain ⟨bothLow, bothHigh⟩ := accrual_bounds q e
  have first := seconds_mul_rate_nonneg q d
  have second := seconds_mul_rate_nonneg q w
  have both := seconds_mul_rate_nonneg q e
  -- All of these are linear in the products of seconds and rate.
  rw [mul_right_comm, add_mul, mul_right_comm e.roundedSeconds] at low
  rw [mul_right_comm, mul_right_comm, add_mul] at high
  norm_num [roundoff] at *
  constructor <;> linarith

/-! ### Capping -/

/-- What is added to a capped number could be added before capping. -/
theorem inf_add_inf {x y top : ℚ} (nonneg : 0 ≤ y) : (x ⊓ top + y) ⊓ top = (x + y) ⊓ top := by
  rw [inf_add, inf_assoc, inf_eq_right.2 (le_add_of_nonneg_right nonneg)]

namespace TokenBucket

variable {s : Standing} {c x y : ℚ}

/-- Where one sum is less than another by no more than six roundings, it is by no more than seven grains after
capping. -/
theorem add_inf_le_add_inf (low : -1 ≤ c) (less : x * (1 - 6 * roundoff) ≤ y) :
    (c + x) ⊓ q.burst.toNat ≤ (c + y) ⊓ q.burst.toNat + 7 * q.grain := by
  have burst : (0 : ℚ) ≤ q.burst.toNat := Nat.cast_nonneg _
  rcases le_or_gt (q.burst.toNat : ℚ) (c + y) with full | short
  · rw [inf_eq_right.2 full]
    exact inf_le_right.trans (le_add_of_nonneg_right (by linarith [q.grain_nonneg]))
  · -- Below the cap what is added is no more than the burst and one, so that a roundoff of it is a grain.
    rw [inf_eq_left.2 short.le]
    refine inf_le_left.trans ?_
    norm_num [Quota.grain, roundoff] at less ⊢
    linarith

/-- A refill in two steps gives what a refill in one gives, up to ten grains. -/
theorem abs_ready_ready_sub_le (small : q.burst.toNat < 2 ^ (53 : ℕ)) {z z' : Binary64} (h : Denotes z c)
    (h' : Denotes z' (ready q d c)) (low : -1 ≤ c) (low' : -1 ≤ ready q d c) (sum : e.nanos = d.nanos + w.nanos) :
    |ready q w (ready q d c) - ready q e c| ≤ 10 * q.grain := by
  obtain ⟨more, less⟩ := accrual_add_bounds q sum
  -- The first refill is rounded, the second one starts from what was rounded and is rounded again.
  have first := abs_ready_sub_le (q := q) (d := d) small h low
  have start : |(ready q d c + accrual q w) ⊓ q.burst.toNat - (c + (accrual q d + accrual q w)) ⊓ q.burst.toNat| ≤
      |ready q d c - (c + accrual q d) ⊓ q.burst.toNat| := by
    rw [← add_assoc, ← inf_add_inf (x := c + accrual q d) (accrual_nonneg q w)]
    exact (abs_inf_sub_inf_le _ _ _).trans_eq (congrArg abs (add_sub_add_right_eq_sub _ _ _))
  have second := abs_le.1 (abs_ready_sub_le (q := q) (d := w) small h' low')
  have carried := abs_le.1 (start.trans first)
  have direct := abs_le.1 (abs_ready_sub_le (q := q) (d := e) small h low)
  have lost := add_inf_le_add_inf (q := q) low more
  have gained := add_inf_le_add_inf (q := q) low less
  exact abs_le.2 ⟨by linarith, by linarith⟩

/-- After a denied request, what is found at a later instant is what would have been found without it, up to
less than 2⁻⁴⁸ of the burst and one: no refill is lost, and none is counted twice. -/
theorem abs_available_after_denial_sub_le (small : q.burst.toNat < 2 ^ (53 : ℕ))
    (within : Bucket.InBounds ⟨.tokenBucket, q⟩ (1 / 10 ^ 9) s) {now later : Instant}
    (forward : s.lastUpdate.nanos ≤ now.nanos) (onward : now.nanos ≤ later.nanos)
    (denied : (decide q s now).1.allowed = false) :
    ∃ a b : ℚ, Denotes (available q (decide q s now).2 later) a ∧ Denotes (available q s later) b ∧
      |a - b| ≤ (q.burst.toNat + 1) / 2 ^ 48 := by
  obtain ⟨⟨c, credits, debt⟩, -⟩ := within
  obtain ⟨-, kept⟩ := decide_spec q now credits
  rw [denied, if_neg Bool.false_ne_true] at kept
  have debt' := (ready_bounds (q := q) (d := s.lastUpdate.since now) (by norm_num) credits debt).1
  refine ⟨_, _, denotes_available q later kept, denotes_available q later credits, ?_⟩
  rw [decide_lastUpdate]
  have sum : (s.lastUpdate.since later).nanos = (s.lastUpdate.since now).nanos + (now.since later).nanos := by
    change (later.nanos - s.lastUpdate.nanos).toNat =
      (now.nanos - s.lastUpdate.nanos).toNat + (later.nanos - now.nanos).toNat
    omega
  refine (abs_ready_ready_sub_le small credits kept (by linarith) (by linarith) sum).trans ?_
  have burst : (0 : ℚ) ≤ q.burst.toNat := Nat.cast_nonneg _
  norm_num [Quota.grain, roundoff]
  linarith

end TokenBucket

/-- A third of a second after the epoch, rounded down. -/
def Instant.third : Instant := ⟨333333333, by decide, by decide⟩

namespace TokenBucket

/-- One token per second: what is there a second after there was none, with a denied request on the way. -/
theorem abs_available_after_denial_sub_le_onePerSecond :
    Quota.onePerSecond.burst.toNat < 2 ^ (53 : ℕ) ∧
      Bucket.InBounds ⟨.tokenBucket, .onePerSecond⟩ (1 / 10 ^ 9) (.fresh 0 .epoch) ∧
      (decide .onePerSecond (.fresh 0 .epoch) .third).1.allowed = false ∧
      ∃ a b : ℚ, Denotes (available .onePerSecond (decide .onePerSecond (.fresh 0 .epoch) .third).2 .second) a ∧
        Denotes (available .onePerSecond (.fresh 0 .epoch) .second) b ∧ |a - b| ≤ (1 + 1) / 2 ^ 48 := by
  have small : Quota.onePerSecond.burst.toNat < 2 ^ (53 : ℕ) := by decide
  have within : Bucket.InBounds ⟨.tokenBucket, .onePerSecond⟩ (1 / 10 ^ 9) (.fresh 0 .epoch) :=
    ⟨⟨0, denotes_ofNat_zero, by norm_num⟩, by decide +kernel⟩
  have denied : (decide .onePerSecond (.fresh 0 .epoch) .third).1.allowed = false := by decide +kernel
  have forward : (Standing.fresh 0 .epoch).lastUpdate.nanos ≤ Instant.third.nanos := by decide
  have onward : Instant.third.nanos ≤ Instant.second.nanos := by decide
  obtain ⟨a, b, after, direct, near⟩ := abs_available_after_denial_sub_le small within forward onward denied
  refine ⟨small, within, denied, a, b, after, direct, ?_⟩
  exact_mod_cast near

end TokenBucket

end Admission
