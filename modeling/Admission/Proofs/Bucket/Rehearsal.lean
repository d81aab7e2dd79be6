import Admission.Proofs.Binary64.Ties
import Admission.Proofs.Bucket.Repeated

/-!
# Previews

A preview computes what a decision would, and spends nothing. The two agree but for what they report as
remaining, which the preview counts before the unit is taken and the decision counts after it.

## Main definitions

* `Decision.Agrees`: two decisions that differ at most in what remains.

## Main results

* `TokenBucket.preview_agrees`, `LeakyBucket.preview_agrees`, `Bucket.preview_agrees`: what a preview shares
  with the decision.
* `TokenBucket.remaining_spent`, `TokenBucket.remaining_eq_zero`: what a token bucket counts before and after.
* `Bucket.preview_rehearses`: how the preview of any request relates to the decision.
-/

namespace Admission

open Binary64

-- Powers of natural numbers are the core library's, whatever else is in scope.
attribute [local instance (high)] instPowNat

/-- The decisions differ at most in what remains. -/
structure Decision.Agrees (d d' : Decision) : Prop where
  allowed : d.allowed = d'.allowed
  resetTime : d.resetTime = d'.resetTime
  retryAfter : d.retryAfter = d'.retryAfter

/-- Decisions that agree are equal if as much remains. -/
theorem Decision.Agrees.eq {d d' : Decision} (h : d.Agrees d') (same : d.remaining = d'.remaining) : d = d' := by
  obtain ⟨allowed, resetTime, retryAfter⟩ := h
  cases d
  cases d'
  rw [Decision.mk.injEq]
  exact ⟨allowed, same, resetTime, retryAfter⟩

variable {q : Quota} {s : Standing} {now : Instant}

/-! ### Token buckets -/

namespace TokenBucket

theorem preview_agrees (q : Quota) (s : Standing) (now : Instant) :
    (preview q s now).Agrees (decide q s now).1 :=
  ⟨by rw [preview_allowed, decide_allowed], by rw [preview_resetTime, decide_resetTime],
    by rw [preview_retryAfter, decide_retryAfter]⟩

/-- A denial spends nothing. -/
theorem preview_remaining_of_denied (denied : (decide q s now).1.allowed = false) :
    (preview q s now).remaining = (decide q s now).1.remaining := by
  rw [decide_allowed] at denied
  rw [preview_remaining, decide_remaining, left, denied, if_neg Bool.false_ne_true]

/-- What a request that is admitted finds, and what it leaves. -/
theorem exists_found_of_allowed (allowed : (decide q s now).1.allowed = true) :
    ∃ a, Denotes (available q s now) a ∧ a ≤ q.roundedBurst ∧ Denotes (left q s now) (rounded (a - 1)) := by
  rcases found_cases q s now with ⟨a, found, high⟩ | none
  · refine ⟨a, found, high, ?_⟩
    rw [decide_allowed] at allowed
    rw [left, if_pos allowed]
    exact found.sub_of_small denotes_ofNat_one abs_one_lt
  · rw [(denied_of_infinity none).1] at allowed
    cases allowed

theorem remaining_le_preview_remaining (allowed : (decide q s now).1.allowed = true) :
    (decide q s now).1.remaining ≤ (preview q s now).remaining := by
  obtain ⟨a, found, -, spent⟩ := exists_found_of_allowed allowed
  rw [preview_remaining, decide_remaining, UInt64.le_iff_toNat_le]
  refine spent.floorClamped_mono found ?_
  exact (rounded_mono (sub_le_self a zero_le_one)).trans_eq found.rounded_eq

/-- From one credit on, exactly one of those counted is spent. -/
theorem remaining_spent (small : q.burst.toNat < 2 ^ (53 : ℕ)) (allowed : (decide q s now).1.allowed = true)
    (whole : 1 ≤ available q s now) :
    (preview q s now).remaining.toNat = (decide q s now).1.remaining.toNat + 1 := by
  obtain ⟨a, found, high, spent⟩ := exists_found_of_allowed allowed
  have low : 1 ≤ a := (denotes_ofNat_one.le_iff found).1 whole
  have top : a < 2 ^ 53 := by
    rw [Quota.roundedBurst_eq small] at high
    exact high.trans_lt (by exact_mod_cast small)
  have huge : (2 : ℚ) ^ 53 ≤ 2 ^ 64 := pow_le_pow_right₀ one_le_two (by omega)
  rw [found.rounded_sub_one low top] at spent
  rw [preview_remaining, decide_remaining, found.floorClamped_eq_floor (by linarith),
    spent.floorClamped_eq_floor (by linarith), ← Nat.floor_add_one (by linarith), sub_add_cancel]

/-- Of less than one credit nothing is counted, whether it is spent or not. -/
theorem remaining_eq_zero (allowed : (decide q s now).1.allowed = true) (part : available q s now < 1) :
    (preview q s now).remaining = 0 ∧ (decide q s now).1.remaining = 0 := by
  obtain ⟨a, found, -, spent⟩ := exists_found_of_allowed allowed
  have less : a < 1 := (found.lt_iff denotes_ofNat_one).1 part
  have none : (preview q s now).remaining = 0 := by
    rw [preview_remaining]
    exact found.floorClamped_eq_zero less
  have fewer := remaining_le_preview_remaining allowed
  rw [none] at fewer
  exact ⟨none, UInt64.le_zero_iff.1 fewer⟩

end TokenBucket

/-! ### Leaky buckets -/

namespace LeakyBucket

theorem preview_agrees (q : Quota) (s : Standing) (now : Instant) :
    (preview q s now).Agrees (decide q s now).1 :=
  ⟨by rw [preview_allowed, decide_allowed], by rw [preview_resetTime, decide_resetTime],
    by rw [preview_retryAfter, decide_retryAfter]⟩

/-- A denial pours nothing. -/
theorem preview_remaining_of_denied (denied : (decide q s now).1.allowed = false) :
    (preview q s now).remaining = (decide q s now).1.remaining := by
  rw [decide_allowed] at denied
  rw [preview_remaining, decide_remaining, filled, denied, if_neg Bool.false_ne_true]

theorem remaining_le_preview_remaining (allowed : (decide q s now).1.allowed = true) :
    (decide q s now).1.remaining ≤ (preview q s now).remaining := by
  rcases found_cases q s now with ⟨l, found, -⟩ | full
  · have poured := found.add_of_small denotes_ofNat_one abs_one_lt
    have before := q.denotes_ceiling.small_sub found q.abs_roundedBurst_lt
    have after := q.denotes_ceiling.small_sub poured q.abs_roundedBurst_lt
    have more : l ≤ rounded (l + 1) :=
      found.rounded_eq.ge.trans (rounded_mono (le_add_of_nonneg_right zero_le_one))
    rw [decide_allowed] at allowed
    rw [preview_remaining, decide_remaining, filled, if_pos allowed, UInt64.le_iff_toNat_le]
    exact after.floorClamped_mono before (rounded_mono (sub_le_sub_left more _))
  · rw [(denied_of_infinity full).1] at allowed
    cases allowed

end LeakyBucket

/-! ### Both buckets -/

namespace Bucket

theorem preview_agrees (b : Bucket) (s : Standing) (now : Instant) :
    (b.preview s now).Agrees (b.decide s now).1 := by
  rcases b with ⟨_ | _, q⟩
  · exact TokenBucket.preview_agrees q s now
  · exact LeakyBucket.preview_agrees q s now

/-- A preview agrees with the decision on whether a request is admitted, how long to wait and when the bucket
is at rest. It is the decision for a denial, and has no less remaining for an admission. A token bucket whose
burst can be counted has one more remaining in the preview where one credit or more is found, and nothing in
either where less is found but admitted for the slack. -/
theorem preview_rehearses (b : Bucket) (s : Standing) (now : Instant) :
    (b.preview s now).Agrees (b.decide s now).1 ∧
      ((b.decide s now).1.allowed = false → b.preview s now = (b.decide s now).1) ∧
      ((b.decide s now).1.allowed = true → (b.decide s now).1.remaining ≤ (b.preview s now).remaining) ∧
      (b.algorithm = .tokenBucket → b.quota.burst.toNat < 2 ^ (53 : ℕ) →
        (b.decide s now).1.allowed = true →
        (1 ≤ TokenBucket.available b.quota s now →
          (b.preview s now).remaining.toNat = (b.decide s now).1.remaining.toNat + 1) ∧
        (TokenBucket.available b.quota s now < 1 →
          (b.preview s now).remaining = 0 ∧ (b.decide s now).1.remaining = 0)) := by
  have agrees := b.preview_agrees s now
  rcases b with ⟨_ | _, q⟩
  · refine ⟨agrees, fun denied => agrees.eq (TokenBucket.preview_remaining_of_denied denied),
      TokenBucket.remaining_le_preview_remaining, fun _ small allowed => ?_⟩
    exact ⟨TokenBucket.remaining_spent small allowed, TokenBucket.remaining_eq_zero allowed⟩
  · exact ⟨agrees, fun denied => agrees.eq (LeakyBucket.preview_remaining_of_denied denied),
      LeakyBucket.remaining_le_preview_remaining, nofun⟩

/-- A tenth of the slack short of one credit. -/
def nearlyOne : Standing := .fresh (nearest false 9999999999 10000000000) .epoch

/-- Such credits are admitted as one for the slack, and counted as none both before and after. -/
theorem preview_rehearses_nearlyOne :
    Quota.onePerSecond.burst.toNat < 2 ^ (53 : ℕ) ∧
      (Bucket.decide ⟨.tokenBucket, .onePerSecond⟩ nearlyOne .epoch).1.allowed = true ∧
      TokenBucket.available .onePerSecond nearlyOne .epoch < 1 ∧
      (Bucket.preview ⟨.tokenBucket, .onePerSecond⟩ nearlyOne .epoch).remaining = 0 ∧
      (Bucket.decide ⟨.tokenBucket, .onePerSecond⟩ nearlyOne .epoch).1.remaining = 0 := by
  have small : Quota.onePerSecond.burst.toNat < 2 ^ (53 : ℕ) := by decide
  have allowed : (Bucket.decide ⟨.tokenBucket, .onePerSecond⟩ nearlyOne .epoch).1.allowed = true := by
    decide +kernel
  have part : TokenBucket.available .onePerSecond nearlyOne .epoch < 1 := by decide +kernel
  have counted := (preview_rehearses ⟨.tokenBucket, .onePerSecond⟩ nearlyOne .epoch).2.2.2 rfl small allowed
  exact ⟨small, allowed, part, counted.2 part⟩

end Bucket

end Admission
