import Admission.Proofs.Binary64.Ties
import Admission.Proofs.Bucket.Regression
import Admission.Proofs.Bucket.Repeated

/-!
# Bursts that doubles cannot count

A burst is a whole number of 64 bits, and it is counted down or up in a double. From 2⁵³ on one unit is half
a step of the doubles, and whether a unit is taken then is decided by a tie. A level that has come to 2⁵³
stays there, and credits above 2⁵³ + 2 stay where they are. A bucket with such a burst admits every request.

## Main definitions

* `Algorithm.countable`: the largest burst that is counted.

## Main results

* `TokenBucket.admitted_again_absorbed`, `LeakyBucket.admitted_again_absorbed`: units that are not counted.
* `Bucket.heldToBurst_again_iff`: which bursts hold while the clock stands still.
-/

namespace Admission

open Binary64

-- Powers of natural numbers are the core library's, whatever else is in scope.
attribute [local instance (high)] instPowNat

variable {q : Quota} {s : Standing} {now : Instant}

/-- From 2⁵³ + 4 credits on, no credit is taken: every request is admitted. -/
theorem TokenBucket.admitted_again_absorbed {a : ℚ} (found : Denotes (available q s now) a)
    (large : 2 ^ 53 + 4 ≤ a) (n : ℕ) : Bucket.admitted ⟨.tokenBucket, q⟩ s (List.replicate n now) = n := by
  refine Bucket.admitted_again_eq_of_step
    (fun _ s => ∃ a, Denotes (available q s now) a ∧ 2 ^ 53 + 4 ≤ a) ⟨a, found, large⟩ ?_
  rintro - s ⟨a, found, large⟩
  obtain ⟨allowed, again⟩ := spent_again found (le_trans (by norm_num) large)
  refine ⟨allowed, _, again, ?_⟩
  calc (2 : ℚ) ^ 53 + 4 = rounded (2 ^ 53 + 3) := rounded_two_pow_add_three.symm
    _ ≤ rounded (a - 1) := rounded_mono (by linarith)

/-- A level does not rise above 2⁵³: under a burst that large every request is admitted. -/
theorem LeakyBucket.admitted_again_absorbed {l : ℚ} (found : Denotes (level q s now) l)
    (below : l ≤ 2 ^ 53) (large : 2 ^ 53 ≤ q.roundedBurst) (n : ℕ) :
    Bucket.admitted ⟨.leakyBucket, q⟩ s (List.replicate n now) = n := by
  refine Bucket.admitted_again_eq_of_step
    (fun _ s => ∃ l, Denotes (level q s now) l ∧ l ≤ 2 ^ 53) ⟨l, found, below⟩ ?_
  rintro - s ⟨l, found, below⟩
  have poured : rounded (l + 1) ≤ 2 ^ 53 :=
    (rounded_mono (by linarith)).trans_eq rounded_two_pow_add_one
  obtain ⟨allowed, again⟩ := poured_again found (poured.trans large)
  exact ⟨allowed, _, again, poured⟩

/-- The largest burst that a bucket counts. -/
def Algorithm.countable : Algorithm → ℕ
  | .tokenBucket => 2 ^ (53 : ℕ) + 2
  | .leakyBucket => 2 ^ (53 : ℕ) - 1

/-- Up to 2⁵³ + 2 credits a new key is admitted no further than its burst. -/
theorem TokenBucket.admitted_fresh_again_le (small : q.burst.toNat ≤ 2 ^ (53 : ℕ) + 2) (n : ℕ) :
    Bucket.admitted ⟨.tokenBucket, q⟩ (fresh q now) (List.replicate n now) ≤ q.burst.toNat := by
  have found : Denotes (available q (fresh q now) now) q.roundedBurst := found_fresh
  rcases Nat.lt_or_ge (2 ^ (53 : ℕ)) q.burst.toNat with large | exactly
  · -- The first request takes the credits to 2⁵³ at most, from where on they are whole.
    cases n with
    | zero => exact Nat.zero_le _
    | succ n =>
      have whole := Quota.one_le_roundedBurst (Nat.one_le_two_pow.trans large.le)
      have top : q.roundedBurst ≤ 2 ^ 53 + 2 := by
        rw [← rounded_two_pow_add_two]
        exact rounded_mono (by exact_mod_cast small)
      obtain ⟨-, again⟩ := spent_again found whole
      have room : rounded (q.roundedBurst - 1) ≤ (2 ^ (53 : ℕ) : ℕ) := by
        rw [natCast_two_pow, ← rounded_two_pow_add_one]
        exact rounded_mono (by linarith)
      have rest := admitted_again_le again room le_rfl n
      have first := Bool.toNat_le (decide q (fresh q now) now).1.allowed
      rw [Bucket.admitted_replicate_succ]
      exact (Nat.add_le_add first rest).trans (by omega)
  · exact admitted_again_le found (rounded_natCast exactly).le exactly n

/-- From 2⁵³ + 3 credits on a new key is admitted always. -/
theorem TokenBucket.admitted_fresh_again (large : 2 ^ (53 : ℕ) + 2 < q.burst.toNat) (n : ℕ) :
    Bucket.admitted ⟨.tokenBucket, q⟩ (fresh q now) (List.replicate n now) = n := by
  refine admitted_again_absorbed found_fresh ?_ n
  rw [← rounded_two_pow_add_three]
  exact rounded_mono (by exact_mod_cast large)

/-- Below 2⁵³ units a new key is admitted no further than its burst. -/
theorem LeakyBucket.admitted_fresh_again_le (small : q.burst.toNat < 2 ^ (53 : ℕ)) (n : ℕ) :
    Bucket.admitted ⟨.leakyBucket, q⟩ (fresh now) (List.replicate n now) ≤ q.burst.toNat :=
  admitted_again_le small found_fresh (zero_add _).ge n

/-- From 2⁵³ units on a new key is admitted always. -/
theorem LeakyBucket.admitted_fresh_again (large : 2 ^ (53 : ℕ) ≤ q.burst.toNat) (n : ℕ) :
    Bucket.admitted ⟨.leakyBucket, q⟩ (fresh now) (List.replicate n now) = n := by
  refine admitted_again_absorbed found_fresh (by positivity) ?_ n
  rw [← rounded_two_pow]
  exact rounded_mono (by exact_mod_cast large)

namespace Bucket

/-- A burst that can be counted bounds what a new key is admitted at one instant. -/
theorem admitted_fresh_again_le (b : Bucket) (counted : b.quota.burst.toNat ≤ b.algorithm.countable)
    (now : Instant) (n : ℕ) : b.admitted (b.fresh now) (List.replicate n now) ≤ b.quota.burst.toNat := by
  rcases b with ⟨_ | _, q⟩
  · exact TokenBucket.admitted_fresh_again_le counted n
  · exact LeakyBucket.admitted_fresh_again_le (Nat.lt_of_le_pred (by decide) counted) n

/-- A burst that cannot be counted bounds nothing. -/
theorem admitted_fresh_again (b : Bucket) (large : b.algorithm.countable < b.quota.burst.toNat)
    (now : Instant) (n : ℕ) : b.admitted (b.fresh now) (List.replicate n now) = n := by
  rcases b with ⟨_ | _, q⟩
  · exact TokenBucket.admitted_fresh_again large n
  · exact LeakyBucket.admitted_fresh_again (Nat.le_of_pred_lt large) n

/-- While the clock stands still, a bucket is held to its burst exactly if it can count it. Otherwise it
admits every request. -/
theorem heldToBurst_again_iff (b : Bucket) :
    ((∀ t n, b.HeldToBurst t (List.replicate n t)) ↔ b.quota.burst.toNat ≤ b.algorithm.countable) ∧
      (b.algorithm.countable < b.quota.burst.toNat →
        ∀ t n, b.admitted (b.fresh t) (List.replicate n t) = n) := by
  refine ⟨⟨fun held => ?_, fun counted t n => ?_⟩, b.admitted_fresh_again⟩
  · by_contra large
    have row := held .epoch b.quota.burst.toNat
    rw [HeldToBurst, ← List.replicate_succ, b.admitted_fresh_again (not_le.1 large)] at row
    exact Nat.not_succ_le_self _ row
  · rw [HeldToBurst, ← List.replicate_succ]
    exact b.admitted_fresh_again_le counted t (n + 1)

/-- One unit per second, and 2⁵³ at once. -/
def uncounted : Bucket := ⟨.leakyBucket, { Quota.onePerSecond with burst := 9007199254740992 }⟩

/-- Of 2⁵³ + 1 requests at the epoch all are admitted. -/
theorem not_heldToBurst_again : ¬ uncounted.HeldToBurst .epoch (List.replicate (2 ^ (53 : ℕ)) .epoch) := by
  have count := (heldToBurst_again_iff uncounted).2 (by decide) .epoch (2 ^ (53 : ℕ) + 1)
  rw [HeldToBurst, ← List.replicate_succ, count]
  decide

end Bucket

end Admission
