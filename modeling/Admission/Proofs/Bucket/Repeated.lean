import Admission.Proofs.Bucket.Account

/-!
# Requests at one instant

A request finds what the one before it at the same instant left. So a denial repeats itself, and how many
requests of a row are admitted is counted down from what the first one finds, one rounding at a time.

Nothing is assumed of the standing here: whatever its credits are, a token bucket finds a number up to the
burst or minus infinity, and a leaky bucket a level from zero up or infinity.

## Main results

* `TokenBucket.found_cases`, `LeakyBucket.found_cases`: what a request finds.
* `TokenBucket.burst_ne_zero_of_allowed`, `LeakyBucket.burst_ne_zero_of_allowed`: no burst, no admission.
* `TokenBucket.found_again`, `LeakyBucket.found_again`: what the next request finds.
* `Bucket.admitted_again_of_denied`: after a denial there are only denials.
* `Bucket.admitted_again_eq_of_step`, `Bucket.admitted_again_le_of_step`: counting down along a row.
* `TokenBucket.admitted_again_le`, `LeakyBucket.admitted_again_le`: how many requests are admitted at most.
-/

namespace Admission

open Binary64

-- Powers of natural numbers are the core library's, whatever else is in scope.
attribute [local instance (high)] instPowNat

/-! ### What the next request finds -/

namespace TokenBucket

variable (q : Quota) (s : Standing) (now : Instant) {a : ℚ}

/-- Whatever the standing, a request finds a number of credits up to the burst, or minus infinity. -/
theorem found_cases :
    (∃ a, Denotes (available q s now) a ∧ a ≤ q.roundedBurst) ∨
      available q s now = .infinity true := by
  have paid := denotes_accrual q (s.lastUpdate.since now)
  rw [available]
  cases s.credits with
  | nan =>
    rw [nan_add, nan_min]
    exact .inl ⟨_, q.denotes_ceiling, le_rfl⟩
  | infinity negative =>
    rw [paid.infinity_add, q.denotes_ceiling.infinity_min]
    cases negative with
    | false =>
      rw [if_neg Bool.false_ne_true]
      exact .inl ⟨_, q.denotes_ceiling, le_rfl⟩
    | true => exact .inr (if_pos rfl)
  | finite negative units fits =>
    have sum := (Denotes.finite negative units fits).add_of_small paid (abs_accrual_lt q _)
    exact .inl ⟨_, sum.min q.denotes_ceiling, inf_le_right⟩

variable {q s now}

/-- Minus infinity is denied, and found again. -/
theorem denied_of_infinity (found : available q s now = .infinity true) :
    (decide q s now).1.allowed = false ∧ available q (decide q s now).2 now = .infinity true := by
  have denied : admits q s now = false := by
    rw [admits, found, denotes_creditSlack.infinity_add]
    exact decide_eq_false denotes_ofNat_one.not_le_infinity
  have kept : (decide q s now).2.credits = .infinity true := by
    rw [decide_credits, left, denied, if_neg Bool.false_ne_true, found]
  rw [decide_allowed, available, kept, (denotes_accrual q _).infinity_add,
    q.denotes_ceiling.infinity_min]
  exact ⟨denied, rfl⟩

/-- Without a burst nothing is admitted, whatever the standing. -/
theorem burst_ne_zero_of_allowed (allowed : (decide q s now).1.allowed = true) : q.burst ≠ 0 := by
  rcases found_cases q s now with ⟨a, found, high⟩ | none
  · have enough := (decide_spec_of_denotes q now found).1.1 allowed
    exact Quota.one_le_rounded_burst_add_slack_iff.1 (enough.trans (rounded_mono (by linarith)))
  · rw [(denied_of_infinity none).1] at allowed
    cases allowed

/-- A new key has the whole burst. -/
theorem found_fresh : Denotes (available q (fresh q now) now) q.roundedBurst := by
  have found := denotes_available_of_lastUpdate_eq (s := fresh q now) q now q.denotes_ceiling rfl
  rwa [inf_idem] at found

theorem le_roundedBurst_of_found (found : Denotes (available q s now) a) : a ≤ q.roundedBurst := by
  rcases found_cases q s now with ⟨a', found', high⟩ | none
  · rwa [found.unique found']
  · rw [none] at found
    cases found

/-- The next request finds what this one leaves. -/
theorem found_again (found : Denotes (available q s now) a) :
    Denotes (available q (decide q s now).2 now)
      (if (decide q s now).1.allowed then rounded (a - 1) else a) := by
  obtain ⟨-, kept⟩ := decide_spec_of_denotes q now found
  have again := denotes_available_of_lastUpdate_eq q now kept (decide_lastUpdate q now)
  have within : (if (decide q s now).1.allowed then rounded (a - 1) else a) ≤ q.roundedBurst := by
    split
    · have less := rounded_mono (sub_le_self a zero_le_one)
      exact less.trans (found.rounded_eq.trans_le (le_roundedBurst_of_found found))
    · exact le_roundedBurst_of_found found
  rwa [inf_eq_left.2 within] at again

/-- A whole credit found is spent. -/
theorem spent_again (found : Denotes (available q s now) a) (whole : 1 ≤ a) :
    (decide q s now).1.allowed = true ∧
      Denotes (available q (decide q s now).2 now) (rounded (a - 1)) := by
  have allowed : (decide q s now).1.allowed = true :=
    (decide_spec_of_denotes q now found).1.2 (one_le_rounded (by linarith [slack_pos]))
  have again := found_again found
  rw [allowed, if_pos rfl] at again
  exact ⟨allowed, again⟩

/-- A denial repeats itself. -/
theorem denied_again (denied : (decide q s now).1.allowed = false) :
    (decide q (decide q s now).2 now).1.allowed = false := by
  rcases found_cases q s now with ⟨a, found, -⟩ | none
  · have again := found_again found
    rw [denied, if_neg Bool.false_ne_true] at again
    rw [← Bool.not_eq_true] at denied ⊢
    rwa [(decide_spec_of_denotes q now again).1, ← (decide_spec_of_denotes q now found).1]
  · exact (denied_of_infinity (denied_of_infinity none).2).1

end TokenBucket

namespace LeakyBucket

variable (q : Quota) (s : Standing) (now : Instant) {l : ℚ}

/-- Whatever the standing, a request finds a level from zero up, or infinity. -/
theorem found_cases :
    (∃ l, Denotes (level q s now) l ∧ 0 ≤ l) ∨ level q s now = .infinity false := by
  have paid := denotes_accrual q (s.lastUpdate.since now)
  rw [level]
  cases s.credits with
  | nan =>
    rw [nan_sub, nan_max]
    exact .inl ⟨_, denotes_ofNat_zero, le_rfl⟩
  | infinity negative =>
    rw [paid.infinity_sub, denotes_ofNat_zero.infinity_max]
    cases negative with
    | false => exact .inr (if_neg Bool.false_ne_true)
    | true =>
      rw [if_pos rfl]
      exact .inl ⟨_, denotes_ofNat_zero, le_rfl⟩
  | finite negative units fits =>
    have rest := (Denotes.finite negative units fits).sub_of_small paid (abs_accrual_lt q _)
    exact .inl ⟨_, rest.max denotes_ofNat_zero, le_sup_right⟩

variable {q s now}

/-- A new key has an empty bucket. -/
theorem found_fresh : Denotes (level q (fresh now) now) 0 := by
  have found := denotes_level_of_lastUpdate_eq (s := fresh now) q now denotes_ofNat_zero rfl
  rwa [sup_idem] at found

/-- An infinite level is denied, and found again. -/
theorem denied_of_infinity (found : level q s now = .infinity false) :
    (decide q s now).1.allowed = false ∧ level q (decide q s now).2 now = .infinity false := by
  have denied : admits q s now = false := by
    rw [admits, found, denotes_ofNat_one.infinity_add]
    exact decide_eq_false (denotes_brim q).not_infinity_le
  have kept : (decide q s now).2.credits = .infinity false := by
    rw [decide_credits, filled, denied, if_neg Bool.false_ne_true, found]
  rw [decide_allowed, level, kept, (denotes_accrual q _).infinity_sub, denotes_ofNat_zero.infinity_max]
  exact ⟨denied, rfl⟩

/-- Without a burst nothing is admitted, whatever the standing. -/
theorem burst_ne_zero_of_allowed (allowed : (decide q s now).1.allowed = true) : q.burst ≠ 0 := by
  rcases found_cases q s now with ⟨l, found, low⟩ | full
  · have fits := (decide_spec_of_denotes q now found).1.1 allowed
    exact Quota.one_le_rounded_burst_add_slack_iff.1 ((one_le_rounded (by linarith)).trans fits)
  · rw [(denied_of_infinity full).1] at allowed
    cases allowed

theorem nonneg_of_found (found : Denotes (level q s now) l) : 0 ≤ l := by
  rcases found_cases q s now with ⟨l', found', low⟩ | full
  · rwa [found.unique found']
  · rw [full] at found
    cases found

/-- The next request finds what this one leaves. -/
theorem found_again (found : Denotes (level q s now) l) :
    Denotes (level q (decide q s now).2 now)
      (if (decide q s now).1.allowed then rounded (l + 1) else l) := by
  obtain ⟨-, kept⟩ := decide_spec_of_denotes q now found
  have again := denotes_level_of_lastUpdate_eq q now kept (decide_lastUpdate q now)
  have within : 0 ≤ if (decide q s now).1.allowed then rounded (l + 1) else l := by
    have low := nonneg_of_found found
    split
    · exact rounded_nonneg (by linarith)
    · exact low
  rwa [sup_eq_left.2 within] at again

/-- A unit that fits under the burst is poured. -/
theorem poured_again (found : Denotes (level q s now) l) (fits : rounded (l + 1) ≤ q.roundedBurst) :
    (decide q s now).1.allowed = true ∧
      Denotes (level q (decide q s now).2 now) (rounded (l + 1)) := by
  have allowed : (decide q s now).1.allowed = true :=
    (decide_spec_of_denotes q now found).1.2 (fits.trans (roundedBurst_le_brim q))
  have again := found_again found
  rw [allowed, if_pos rfl] at again
  exact ⟨allowed, again⟩

/-- A denial repeats itself. -/
theorem denied_again (denied : (decide q s now).1.allowed = false) :
    (decide q (decide q s now).2 now).1.allowed = false := by
  rcases found_cases q s now with ⟨l, found, -⟩ | full
  · have again := found_again found
    rw [denied, if_neg Bool.false_ne_true] at again
    rw [← Bool.not_eq_true] at denied ⊢
    rwa [(decide_spec_of_denotes q now again).1, ← (decide_spec_of_denotes q now found).1]
  · exact (denied_of_infinity (denied_of_infinity full).2).1

end LeakyBucket

/-! ### How many requests of a row are admitted -/

namespace Bucket

variable {b : Bucket} {s : Standing} {now : Instant}

theorem admitted_replicate_succ (b : Bucket) (s : Standing) (now : Instant) (n : ℕ) :
    b.admitted s (List.replicate (n + 1) now) =
      (b.decide s now).1.allowed.toNat + b.admitted (b.decide s now).2 (List.replicate n now) :=
  admitted_cons b s now _

/-- What is counted down with every admission bounds how many there are. -/
theorem admitted_again_le_of_step (Room : ℕ → Standing → Prop) {j : ℕ} (start : Room j s) (n : ℕ)
    (step : ∀ j s, Room j s →
      ∃ k, Room k (b.decide s now).2 ∧ k + (b.decide s now).1.allowed.toNat ≤ j) :
    b.admitted s (List.replicate n now) ≤ j := by
  induction n generalizing s j with
  | zero => exact Nat.zero_le j
  | succ n ih =>
    obtain ⟨k, next, spent⟩ := step j s start
    have rest := ih next
    rw [admitted_replicate_succ]
    omega

/-- What admits while it is counted down to nothing admits as often as it can be counted. -/
theorem admitted_again_eq_of_step (Stock : ℕ → Standing → Prop) {k : ℕ} (start : Stock k s)
    (step : ∀ k s, Stock (k + 1) s → (b.decide s now).1.allowed = true ∧ Stock k (b.decide s now).2) :
    b.admitted s (List.replicate k now) = k := by
  induction k generalizing s with
  | zero => rfl
  | succ k ih =>
    obtain ⟨allowed, next⟩ := step k s start
    rw [admitted_replicate_succ, allowed, ih next, Bool.toNat_true, Nat.add_comm]

/-- After a denial there are only denials at that instant. -/
theorem admitted_again_of_denied (denied : (b.decide s now).1.allowed = false) (n : ℕ) :
    b.admitted s (List.replicate n now) = 0 := by
  induction n generalizing s with
  | zero => rfl
  | succ n ih =>
    have again : (b.decide (b.decide s now).2 now).1.allowed = false := by
      rcases b with ⟨_ | _, q⟩
      · exact TokenBucket.denied_again denied
      · exact LeakyBucket.denied_again denied
    rw [admitted_replicate_succ, denied, ih again, Bool.toNat_false]

end Bucket

namespace TokenBucket

variable {q : Quota} {s : Standing} {now : Instant} {a : ℚ}

/-- No more requests are admitted at one instant than a whole number that the credits found do not pass. -/
theorem admitted_again_le {j : ℕ} (found : Denotes (available q s now) a) (room : a ≤ j)
    (few : j ≤ 2 ^ (53 : ℕ)) (n : ℕ) :
    Bucket.admitted ⟨.tokenBucket, q⟩ s (List.replicate n now) ≤ j := by
  refine Bucket.admitted_again_le_of_step
    (fun j s => j ≤ 2 ^ (53 : ℕ) ∧ ∃ a, Denotes (available q s now) a ∧ a ≤ j)
    ⟨few, a, found, room⟩ n ?_
  rintro j s ⟨few, a, found, room⟩
  change ∃ k, _ ∧ k + (decide q s now).1.allowed.toNat ≤ j
  have again := found_again found
  cases allowed : (decide q s now).1.allowed with
  | false =>
    rw [allowed, if_neg Bool.false_ne_true] at again
    exact ⟨j, ⟨few, a, again, room⟩, le_rfl⟩
  | true =>
    rw [allowed, if_pos rfl] at again
    have some := pos_of_le_rounded ((decide_spec_of_denotes q now found).1.1 allowed)
    have one : 0 < j := by exact_mod_cast some.trans_le room
    refine ⟨j - 1, ⟨by omega, _, again, ?_⟩, (Nat.sub_add_cancel one).le⟩
    rw [← rounded_natCast (n := j - 1) (by omega), Nat.cast_pred one]
    exact rounded_mono (by linarith)

end TokenBucket

namespace LeakyBucket

variable {q : Quota} {s : Standing} {now : Instant} {l : ℚ}

/-- No more requests are admitted at one instant than a whole number of units that fill the bucket. -/
theorem admitted_again_le {j : ℕ} (small : q.burst.toNat < 2 ^ (53 : ℕ))
    (found : Denotes (level q s now) l) (room : q.burst.toNat ≤ l + j) (n : ℕ) :
    Bucket.admitted ⟨.leakyBucket, q⟩ s (List.replicate n now) ≤ j := by
  refine Bucket.admitted_again_le_of_step
    (fun j s => ∃ l, Denotes (level q s now) l ∧ q.burst.toNat ≤ l + j) ⟨l, found, room⟩ n ?_
  rintro j s ⟨l, found, room⟩
  change ∃ k, _ ∧ k + (decide q s now).1.allowed.toNat ≤ j
  have again := found_again found
  cases allowed : (decide q s now).1.allowed with
  | false =>
    rw [allowed, if_neg Bool.false_ne_true] at again
    exact ⟨j, ⟨l, again, room⟩, le_rfl⟩
  | true =>
    rw [allowed, if_pos rfl] at again
    have below := lt_of_rounded_add_one_le small ((decide_spec_of_denotes q now found).1.1 allowed)
    have one : 0 < j := by
      have : (0 : ℚ) < j := by linarith
      exact_mod_cast this
    refine ⟨j - 1, ⟨_, again, ?_⟩, (Nat.sub_add_cancel one).le⟩
    -- The unit is poured onto a whole number of units at least.
    have low := nonneg_of_found found
    have whole : ((q.burst.toNat - (j - 1) : ℕ) : ℚ) ≤ l + 1 := by
      rcases Nat.le_total (j - 1) q.burst.toNat with part | all
      · rw [Nat.cast_sub part, Nat.cast_pred one]
        linarith
      · rw [Nat.sub_eq_zero_of_le all, Nat.cast_zero]
        linarith
    have poured := rounded_mono whole
    rw [rounded_natCast (by omega)] at poured
    have sum : (q.burst.toNat : ℚ) ≤ (q.burst.toNat - (j - 1) : ℕ) + (j - 1 : ℕ) := by
      exact_mod_cast (by omega : q.burst.toNat ≤ q.burst.toNat - (j - 1) + (j - 1))
    linarith

end LeakyBucket

end Admission
