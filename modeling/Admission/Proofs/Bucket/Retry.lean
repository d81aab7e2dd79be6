import Admission.Proofs.Binary64.Ties
import Admission.Proofs.Bucket.Account
import Admission.Proofs.Time.Covering

/-!
# Waiting as told

A denial tells how long to wait. Who waits so long, or for the whole seconds of the header, is admitted next.

The wait gives one credit less a few roundings. For a token bucket the slack makes up for them. For a leaky
bucket they are rounded away: the level to which a unit drains from the brim is less than half a step above
the brim less one, at the size of the brim.

## Main definitions

* `Bucket.Recoverable`: the standings from which the wait is told right.
* `Decision.Heeds`: the waits that are as long as told.

## Main results

* `TokenBucket.allowed_of_waited`, `LeakyBucket.allowed_of_waited`: what a wait leads to.
* `Bucket.allowed_after_wait`: waiting as told is enough.
-/

namespace Admission

open Binary64

-- Powers of natural numbers are the core library's, whatever else is in scope.
attribute [local instance (high)] instPowNat

variable {q : Quota} {s : Standing} {now later : Instant}

/-! ### Token buckets -/

namespace TokenBucket

variable {a : ℚ}

/-- What is found on credits that are no further below zero than the slack is not either. -/
theorem exists_available (q : Quota) (now : Instant) (low : creditSlack.neg ≤ s.credits) :
    ∃ a, Denotes (available q s now) a ∧ -slack ≤ a := by
  have paid := denotes_accrual q (s.lastUpdate.since now)
  have ceiling : -slack ≤ q.roundedBurst := by linarith [slack_pos, q.roundedBurst_nonneg]
  rcases denotes_creditSlack.neg.cases_of_le low with ⟨c, credits, low⟩ | endless
  · refine ⟨_, denotes_available q now credits, le_inf ?_ ceiling⟩
    rw [← denotes_creditSlack.neg.rounded_eq]
    exact rounded_mono (by linarith [accrual_nonneg q (s.lastUpdate.since now)])
  · refine ⟨_, ?_, ceiling⟩
    rw [available, endless, paid.infinity_add, q.denotes_ceiling.infinity_min, if_neg Bool.false_ne_true]
    exact q.denotes_ceiling

/-- A credit less the slack counts as one after rounding. -/
theorem one_le_rounded_add_slack : 1 ≤ rounded (rounded (1 - slack) + slack) := by
  have near := abs_rounded_sub_le_of_lt (q := 1 - slack) (k := 0) (by
    rw [abs_of_nonneg (by linarith [slack_le]), pow_zero]
    linarith [slack_pos])
  rw [pow_zero] at near
  calc 1 = rounded (1 - 1 / 2 ^ 54) := rounded_one_sub.symm
    _ ≤ rounded (rounded (1 - slack) + slack) := rounded_mono (by linarith [(abs_le.1 near).1])

/-- A denial found less than one credit, even with the slack. -/
theorem lt_of_denied (found : Denotes (available q s now) a) (denied : (decide q s now).1.allowed = false) :
    a < 1 - slack := by
  rw [← Bool.not_eq_true, (decide_spec_of_denotes q now found).1] at denied
  by_contra enough
  exact denied (one_le_rounded (by linarith))

/-- What is found short of one credit is made up for by waiting for the rest, up to the slack. -/
theorem le_add_accrual (found : Denotes (available q s now) a) (low : -slack ≤ a) {d : Duration}
    (denied : (decide q s now).1.allowed = false)
    (enough : (decide q s now).1.retryAfter.roundedSeconds ≤ d.roundedSeconds) :
    1 - slack ≤ a + accrual q d := by
  have short := lt_of_denied found denied
  have slackLow := slack_bounds.1
  have slackHigh := slack_le
  norm_num [roundoff] at slackLow
  have gap := denotes_ofNat_one.small_sub found abs_one_lt
  have gapNear := abs_rounded_sub_le_of_lt (q := 1 - a) (k := 1) (by
    rw [abs_of_pos] <;> linarith)
  norm_num at gapNear
  have gapLow : slack ≤ rounded (1 - a) := by
    rw [← denotes_creditSlack.rounded_eq]
    exact rounded_mono (by linarith)
  have gapHigh : rounded (1 - a) ≤ 2 := by linarith [(abs_le.1 gapNear).2]
  rw [retryAfter_of_denied q now denied] at enough
  -- The credits waited for come less two roundings, or one whole credit where no wait is so long.
  rcases inf_le_iff.1 (min_le_accrual_of_covering gap (by linarith) gapHigh enough) with paid | whole
  · have paidNear := abs_rounded_sub_le_of_lt (q := rounded (1 - a) * (1 - roundoff)) (k := 2) (by
      norm_num [roundoff]
      rw [abs_of_nonneg] <;> linarith)
    norm_num [roundoff] at paid paidNear
    linarith [(abs_le.1 gapNear).1, (abs_le.1 paidNear).1]
  · linarith

/-- Who waits as long as told is admitted next. -/
theorem allowed_of_waited (some : 1 ≤ q.burst.toNat) (low : creditSlack.neg ≤ s.credits)
    (denied : (decide q s now).1.allowed = false)
    (enough : (decide q s now).1.retryAfter.roundedSeconds ≤ (now.since later).roundedSeconds) :
    (decide q (decide q s now).2 later).1.allowed = true := by
  obtain ⟨a, found, low⟩ := exists_available q now low
  have credited := le_add_accrual found low denied enough
  have kept := (decide_spec_of_denotes q now found).2
  rw [denied, if_neg Bool.false_ne_true] at kept
  have below : rounded (1 - slack) ≤ 1 :=
    (rounded_mono (sub_le_self 1 slack_pos.le)).trans_eq rounded_one
  rw [(decide_spec q later kept).1, decide_lastUpdate]
  calc 1 ≤ rounded (rounded (1 - slack) + slack) := one_le_rounded_add_slack
    _ ≤ rounded (ready q (now.since later) a + slack) := by
      refine rounded_mono (add_le_add_left ?_ _)
      exact le_inf (rounded_mono credited) (below.trans (Quota.one_le_roundedBurst some))

end TokenBucket

/-! ### Leaky buckets -/

namespace LeakyBucket

/-- For a burst of one the brim lies an even number of steps above one. -/
theorem pour_le_brim_of_eq_one (one : q.burst.toNat = 1) :
    rounded (rounded (brim q - (1 - roundoff)) + 1) ≤ brim q := by
  have part : ((2 ^ (53 : ℕ) - 1 : ℕ) : ℚ) / (2 ^ (53 : ℕ) : ℕ) = 1 - roundoff := by norm_num [roundoff]
  have paid : Denotes (nearest false (2 ^ (53 : ℕ) - 1) (2 ^ (53 : ℕ))) (1 - roundoff) := by
    have small : ((2 ^ (53 : ℕ) - 1 : ℕ) : ℚ) / (2 ^ (53 : ℕ) : ℕ) ≤ 2 ^ 0 := by norm_num
    have := denotes_nearest (by decide) (le_ample small (by omega))
    rwa [part, rounded_one_sub_roundoff] at this
  have small : |1 - roundoff| < 2 ^ 970 := by
    refine lt_of_le_of_lt ?_ abs_one_lt
    rw [abs_one]
    norm_num [roundoff]
  have poured := ((denotes_brim q).sub_of_small paid small).add_of_small denotes_ofNat_one abs_one_lt
  rw [← poured.le_iff (denotes_brim q), Quota.ceiling, one]
  decide +kernel

/-- From the brim less one, give or take a rounding, one unit is poured to the brim at most. -/
theorem pour_le_brim (some : 1 ≤ q.burst.toNat) (small : q.burst.toNat < 2 ^ (53 : ℕ)) :
    rounded (rounded (brim q - (1 - roundoff)) + 1) ≤ brim q := by
  rcases Nat.lt_or_ge q.burst.toNat 2 with one | more
  · exact pour_le_brim_of_eq_one (by omega)
  · have low : 2 ≤ brim q := by
      have : (2 : ℚ) ≤ q.burst.toNat := by exact_mod_cast more
      rw [← Quota.roundedBurst_eq small] at this
      exact this.trans (roundedBurst_le_brim q)
    have high : brim q < 2 ^ 53 := by
      have : (q.burst.toNat : ℚ) + 1 ≤ 2 ^ 53 := by exact_mod_cast small
      exact (brim_lt small).trans_le this
    have drained := (denotes_brim q).rounded_sub_one_add_roundoff low high
    rw [← sub_add, drained, sub_add_cancel, (denotes_brim q).rounded_eq]

/-- Who waits as long as told is admitted next. -/
theorem allowed_of_waited (some : 1 ≤ q.burst.toNat) (small : q.burst.toNat < 2 ^ (53 : ℕ))
    (low : 0 ≤ s.credits) (high : s.credits ≤ q.ceiling + creditSlack)
    (denied : (decide q s now).1.allowed = false)
    (enough : (decide q s now).1.retryAfter.roundedSeconds ≤ (now.since later).roundedSeconds) :
    (decide q (decide q s now).2 later).1.allowed = true := by
  obtain ⟨l, credits, -, high⟩ := denotes_ofNat_zero.exists_between (denotes_brim q) low high
  have kept := (decide_spec q now credits).2
  rw [denied, if_neg Bool.false_ne_true] at kept
  have found := (drained_bounds (q := q) (d := s.lastUpdate.since now) credits high).2
  generalize drained q (s.lastUpdate.since now) l = m at kept found
  rw [retryAfter_of_denied q now denied] at enough
  have paid : 1 - roundoff ≤ accrual q (now.since later) := by
    have := min_le_accrual_of_covering denotes_ofNat_one (by norm_num) one_le_two enough
    rwa [one_mul, rounded_one_sub_roundoff, inf_eq_left.2 (sub_le_self 1 roundoff_pos.le)] at this
  rw [(decide_spec q later kept).1, decide_lastUpdate, drained]
  rcases le_total (rounded (m - accrual q (now.since later))) 0 with empty | rest
  · rw [sup_eq_right.2 empty, zero_add, rounded_one]
    exact (Quota.one_le_roundedBurst some).trans (roundedBurst_le_brim q)
  · rw [sup_eq_left.2 rest]
    refine le_trans (rounded_mono (add_le_add_left (rounded_mono ?_) 1)) (pour_le_brim some small)
    linarith

end LeakyBucket

/-! ### Both buckets -/

namespace Decision

/-- The wait is as long as the decision tells to wait, or has the whole seconds that its header tells. -/
def Heeds (d : Decision) (limit : UInt64) (wait : Duration) : Prop :=
  d.retryAfter.nanos ≤ wait.nanos ∨
    ∃ n : ℕ, ("Retry-After", toString n) ∈ d.headers limit ∧ wait.nanos = n * nanosPerSecond

/-- The header of a denial tells the seconds to wait, rounded up. -/
theorem eq_secondsRoundedUp_of_mem_headers {d : Decision} {limit : UInt64} {n : ℕ}
    (told : ("Retry-After", toString n) ∈ d.headers limit) : n = d.retryAfter.secondsRoundedUp := by
  rw [headers, List.mem_append] at told
  rcases told with others | retry
  · simp at others
  · split at retry
    · cases retry
    · have digits := congrArg (String.toList ∘ Prod.snd) (List.mem_singleton.1 retry)
      simp only [Function.comp_apply, Nat.toString_eq_repr, Nat.toList_repr] at digits
      rw [← Nat.ofDigitChars_ten_toDigits (n := n), digits, Nat.ofDigitChars_ten_toDigits]

/-- A wait as long as told is not computed to be shorter. -/
theorem Heeds.roundedSeconds_le {d : Decision} {limit : UInt64} {wait : Duration} (h : d.Heeds limit wait) :
    d.retryAfter.roundedSeconds ≤ wait.roundedSeconds := by
  rcases h with longer | ⟨n, told, whole⟩
  · exact Duration.roundedSeconds_mono longer
  · rw [eq_secondsRoundedUp_of_mem_headers told] at whole
    exact Duration.roundedSeconds_le_of_secondsRoundedUp whole

end Decision

namespace Bucket

/-- The credits are no further below zero than the slack, or the level is between zero and the burst with
the slack. -/
def Recoverable (b : Bucket) (s : Standing) : Prop :=
  match b.algorithm with
  | .tokenBucket => creditSlack.neg ≤ s.credits
  | .leakyBucket => 0 ≤ s.credits ∧ s.credits ≤ b.quota.ceiling + creditSlack

instance (b : Bucket) (s : Standing) : Decidable (b.Recoverable s) :=
  match b with
  | ⟨.tokenBucket, _⟩ => inferInstanceAs (Decidable (creditSlack.neg ≤ s.credits))
  | ⟨.leakyBucket, q⟩ => inferInstanceAs (Decidable (0 ≤ s.credits ∧ s.credits ≤ q.ceiling + creditSlack))

/-- Waiting as told is enough: a request that is denied is admitted when it comes again after a wait as long
as the denial told, or as its header did, if there is any burst and it is one that can be counted. -/
theorem allowed_after_wait (b : Bucket) (some : 1 ≤ b.quota.burst.toNat)
    (small : b.quota.burst.toNat < 2 ^ (53 : ℕ)) (s : Standing) (within : b.Recoverable s) (now : Instant)
    (denied : (b.decide s now).1.allowed = false) (wait : Duration)
    (heeds : (b.decide s now).1.Heeds b.quota.limit wait) (later : Instant)
    (waited : now.add? wait = Option.some later) :
    (b.decide (b.decide s now).2 later).1.allowed = true := by
  have enough := heeds.roundedSeconds_le
  rw [← Instant.since_eq_of_add?_eq waited] at enough
  rcases b with ⟨_ | _, q⟩
  · exact TokenBucket.allowed_of_waited some within denied enough
  · exact LeakyBucket.allowed_of_waited some small within.1 within.2 denied enough

/-- Three units per second, and one at once. -/
def onePerThird : Bucket :=
  ⟨.leakyBucket, { Quota.onePerSecond with limit := 3, limit_ne_zero := by decide }⟩

/-- At three units per second a full bucket is told to wait for a third of a second, rounded up to whole
nanoseconds. -/
theorem allowed_after_wait_onePerThird :
    1 ≤ onePerThird.quota.burst.toNat ∧ onePerThird.quota.burst.toNat < 2 ^ (53 : ℕ) ∧
      onePerThird.Recoverable (.fresh 1 .epoch) ∧
      (onePerThird.decide (.fresh 1 .epoch) .epoch).1.allowed = false ∧
      (onePerThird.decide (.fresh 1 .epoch) .epoch).1.retryAfter = ⟨333333334, by decide⟩ ∧
      (onePerThird.decide (onePerThird.decide (.fresh 1 .epoch) .epoch).2
        ⟨333333334, by decide, by decide⟩).1.allowed = true := by
  have within : onePerThird.Recoverable (.fresh 1 .epoch) := by
    constructor <;> decide +kernel
  have denied : (onePerThird.decide (.fresh 1 .epoch) .epoch).1.allowed = false := by decide +kernel
  have told : (onePerThird.decide (.fresh 1 .epoch) .epoch).1.retryAfter = ⟨333333334, by decide⟩ := by
    decide +kernel
  have next := allowed_after_wait onePerThird (by decide) (by decide) _ within .epoch denied
    ⟨333333334, by decide⟩ (.inl (by rw [told])) ⟨333333334, by decide, by decide⟩ (by decide)
  exact ⟨by decide, by decide, within, denied, told, next⟩

end Bucket

end Admission
