import Admission.Proofs.Bucket.Account

/-!
# Clocks that never move forward

While the clock stands still or runs backwards nothing accrues, and a bucket counts its requests without
any rounding: every request is admitted until the burst is used up, and none from then on.

## Main results

* `Bucket.Used.decide_still`: one request.
* `Bucket.Used.admitted_still`: a run.
* `Bucket.admitted_fresh_still`: a run from a new key.
-/

namespace Admission

open Binary64

-- Powers of natural numbers are the core library's, whatever else is in scope.
attribute [local instance (high)] instPowNat

variable {q : Quota} {s : Standing} {now : Instant}

namespace TokenBucket

/-- Whole credits are admitted on exactly. -/
theorem decide_still (small : q.burst.toNat < 2 ^ (53 : ℕ)) {m : ℕ} (h : Denotes s.credits m)
    (room : m ≤ q.burst.toNat) (back : now.nanos ≤ s.lastUpdate.nanos) :
    ((decide q s now).1.allowed = true ↔ 0 < m) ∧
      Denotes (decide q s now).2.credits ((m - 1 : ℕ) : ℚ) := by
  have within : (m : ℚ) ≤ q.burst.toNat := by exact_mod_cast room
  have found : ready q (s.lastUpdate.since now) m = m := by
    rw [ready, Instant.since_eq_zero back, accrual_zero, add_zero, rounded_natCast (by omega),
      Quota.roundedBurst_eq small, inf_eq_left.2 within]
  obtain ⟨admission, next⟩ := decide_spec q now h
  rw [found] at admission next
  -- The slack admits no request of its own.
  have exactly : 1 ≤ rounded (m + slack) ↔ 0 < m := by
    constructor
    · intro enough
      by_contra none
      rw [Nat.eq_zero_of_not_pos none, Nat.cast_zero, zero_add,
        denotes_creditSlack.rounded_eq] at enough
      linarith [slack_le]
    · intro some
      have : (1 : ℚ) ≤ m := by exact_mod_cast some
      exact one_le_rounded (by linarith [slack_pos])
  refine ⟨admission.trans exactly, ?_⟩
  split at next
  case isTrue allowed =>
    have some := exactly.1 (admission.1 allowed)
    rwa [← Nat.cast_pred some, rounded_natCast (by omega)] at next
  case isFalse denied =>
    have none : m = 0 := Nat.eq_zero_of_not_pos fun some => denied (admission.2 (exactly.2 some))
    rwa [none] at next ⊢

end TokenBucket

namespace LeakyBucket

/-- A whole level is admitted on exactly. -/
theorem decide_still (small : q.burst.toNat < 2 ^ (53 : ℕ)) {l : ℕ} (h : Denotes s.credits l)
    (room : l ≤ q.burst.toNat) (back : now.nanos ≤ s.lastUpdate.nanos) :
    ((decide q s now).1.allowed = true ↔ l < q.burst.toNat) ∧
      Denotes (decide q s now).2.credits (min (l + 1) q.burst.toNat : ℕ) := by
  have within : (l : ℚ) ≤ q.burst.toNat := by exact_mod_cast room
  have found : drained q (s.lastUpdate.since now) l = l := by
    rw [drained, Instant.since_eq_zero back, accrual_zero, sub_zero, rounded_natCast (by omega),
      sup_eq_left.2 l.cast_nonneg]
  have poured : rounded ((l : ℚ) + 1) = (l + 1 : ℕ) := by
    rw [← Nat.cast_succ, rounded_natCast (by omega)]
  obtain ⟨admission, next⟩ := decide_spec q now h
  rw [found] at admission next
  -- The slack is too small to let a unit in beyond a whole burst.
  have exactly : rounded ((l : ℚ) + 1) ≤ brim q ↔ l < q.burst.toNat := by
    constructor
    · intro fits
      exact_mod_cast lt_of_rounded_add_one_le small fits
    · intro below
      have : (l : ℚ) + 1 ≤ q.burst.toNat := by exact_mod_cast below
      rw [brim, Quota.roundedBurst_eq small]
      exact rounded_mono (by linarith [slack_pos])
  refine ⟨admission.trans exactly, ?_⟩
  split at next
  case isTrue allowed =>
    have below := exactly.1 (admission.1 allowed)
    rwa [Nat.min_eq_left below, ← poured]
  case isFalse denied =>
    have full : ¬ l < q.burst.toNat := fun below => denied (admission.2 (exactly.2 below))
    rwa [Nat.min_eq_right (by omega), ← Nat.le_antisymm room (not_lt.1 full)]

end LeakyBucket

namespace Bucket

variable {b : Bucket} {j : ℕ}

/-- With the clock not moving forward, a request is admitted while the burst is not used up. -/
theorem Used.decide_still (small : b.quota.burst.toNat < 2 ^ (53 : ℕ)) (h : b.Used s j)
    (room : j ≤ b.quota.burst.toNat) (back : now.nanos ≤ s.lastUpdate.nanos) :
    ((b.decide s now).1.allowed = true ↔ j < b.quota.burst.toNat) ∧
      b.Used (b.decide s now).2 (min (j + 1) b.quota.burst.toNat : ℕ) := by
  rcases b with ⟨_ | _, q⟩
  · have room : j ≤ q.burst.toNat := room
    have small : q.burst.toNat < 2 ^ (53 : ℕ) := small
    rw [used_tokenBucket, Quota.roundedBurst_eq small, ← Nat.cast_sub room] at h
    obtain ⟨admission, next⟩ := TokenBucket.decide_still small h (Nat.sub_le _ _) back
    refine ⟨admission.trans Nat.sub_pos_iff_lt, ?_⟩
    rw [used_tokenBucket, Quota.roundedBurst_eq small, ← Nat.cast_sub (min_le_right _ _)]
    have same : q.burst.toNat - min (j + 1) q.burst.toNat = q.burst.toNat - j - 1 := by omega
    exact same ▸ next
  · exact LeakyBucket.decide_still small h room back

/-- With the clock never moving forward, a run is admitted until the burst is used up. -/
theorem Used.admitted_still (small : b.quota.burst.toNat < 2 ^ (53 : ℕ)) {times : List Instant}
    (h : b.Used s j) (room : j ≤ b.quota.burst.toNat)
    (back : (s.lastUpdate :: times).Pairwise fun t u => u.nanos ≤ t.nanos) :
    b.admitted s times = min times.length (b.quota.burst.toNat - j) ∧
      b.Used (b.standingAfter s times) (min (j + times.length) b.quota.burst.toNat : ℕ) := by
  induction times generalizing s j with
  | nil =>
    rw [admitted_nil, List.length_nil, Nat.zero_min, Nat.add_zero, Nat.min_eq_left room]
    exact ⟨rfl, h⟩
  | cons now later ih =>
    obtain ⟨first, back⟩ := List.pairwise_cons.1 back
    obtain ⟨admission, next⟩ := h.decide_still small room (first now List.mem_cons_self)
    -- What is left was updated at this reading, which no later one passes.
    rw [← b.decide_lastUpdate s now] at back
    obtain ⟨rest, last⟩ := ih next (min_le_right _ _) back
    rw [admitted_cons, rest, List.length_cons]
    constructor
    · cases allowed : (b.decide s now).1.allowed with
      | false =>
        rw [allowed] at admission
        simp only [Bool.false_eq_true, false_iff] at admission
        rw [Bool.toNat_false]
        omega
      | true =>
        have below := admission.1 allowed
        rw [Bool.toNat_true]
        omega
    · have same : min (min (j + 1) b.quota.burst.toNat + later.length) b.quota.burst.toNat =
          min (j + (later.length + 1)) b.quota.burst.toNat := by omega
      exact same ▸ last

/-- With the clock never moving forward, a new key is admitted up to the burst and no further. -/
theorem admitted_fresh_still (small : b.quota.burst.toNat < 2 ^ (53 : ℕ)) (first : Instant)
    {times : List Instant} (back : (first :: times).Pairwise fun t u => u.nanos ≤ t.nanos) :
    b.admitted (b.fresh first) times = min times.length b.quota.burst.toNat ∧
      b.Used (b.standingAfter (b.fresh first) times) (min times.length b.quota.burst.toNat : ℕ) := by
  have used : b.Used (b.fresh first) (0 : ℕ) := by
    rw [Nat.cast_zero]
    exact (b.account_fresh first).used
  rw [← b.fresh_lastUpdate first] at back
  have := used.admitted_still small (Nat.zero_le _) back
  rwa [Nat.sub_zero, Nat.zero_add] at this

end Bucket

end Admission
