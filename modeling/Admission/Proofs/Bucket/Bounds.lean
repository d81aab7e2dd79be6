import Admission.Proofs.Bucket.Account

/-!
# Bounds of the credits

Whatever the clock does, the credits of a token bucket stay between a debt of the slack and the burst, and
the level of a leaky bucket between zero and the burst with the slack. The slack does not add up: a request
that it lets through leaves a debt, and with a debt no request is let through.

## Main definitions

* `Bucket.InBounds`: the standings with such credits.

## Main results

* `Bucket.InBounds.decide`: a request keeps the bounds.
* `Bucket.inBounds_run`: so does every run.
-/

namespace Admission

open Binary64

-- Powers of natural numbers are the core library's, whatever else is in scope.
attribute [local instance (high)] instPowNat

namespace Bucket

/-- The credits are below zero by no more than a debt and up to the burst, or the level is between zero and
the burst with the slack. -/
def InBounds (b : Bucket) (debt : ℚ) (s : Standing) : Prop :=
  match b.algorithm with
  | .tokenBucket => (∃ c, Denotes s.credits c ∧ -debt ≤ c) ∧ s.credits ≤ b.quota.ceiling
  | .leakyBucket => 0 ≤ s.credits ∧ s.credits ≤ b.quota.ceiling + creditSlack

variable {b : Bucket} {debt : ℚ} {s : Standing}

theorem inBounds_fresh (nonneg : 0 ≤ debt) (t : Instant) : b.InBounds debt (b.fresh t) := by
  rcases b with ⟨_ | _, q⟩
  · have full := q.denotes_ceiling
    refine ⟨⟨_, full, ?_⟩, (full.le_iff full).2 le_rfl⟩
    linarith [q.roundedBurst_nonneg]
  · have empty := denotes_ofNat_zero
    exact ⟨(empty.le_iff empty).2 le_rfl,
      (empty.le_iff (LeakyBucket.denotes_brim q)).2 (LeakyBucket.brim_nonneg q)⟩

/-- A request keeps the credits within their bounds. -/
theorem InBounds.decide (room : 1 / 10 ^ 9 ≤ debt) (h : b.InBounds debt s) (now : Instant) :
    b.InBounds debt (b.decide s now).2 := by
  rcases b with ⟨_ | _, q⟩
  · obtain ⟨⟨c, credits, low⟩, -⟩ := h
    obtain ⟨next, kept, low, high⟩ := TokenBucket.decide_bounds (q := q) now room credits low
    exact ⟨⟨next, kept, low⟩, (kept.le_iff q.denotes_ceiling).2 high⟩
  · have brim := LeakyBucket.denotes_brim q
    obtain ⟨l, level, -, high⟩ := denotes_ofNat_zero.exists_between brim h.1 h.2
    obtain ⟨next, kept, low, high⟩ := LeakyBucket.decide_bounds (q := q) now level high
    exact ⟨(denotes_ofNat_zero.le_iff kept).2 low, (kept.le_iff brim).2 high⟩

/-- A new key starts within the bounds, and from there every run stays within them, whichever way the clock
moves: after each request the credits are within the bounds, the last update is the request's instant, and
the key was created when it was. -/
theorem inBounds_run (b : Bucket) {debt : ℚ} (room : 1 / 10 ^ 9 ≤ debt) :
    (∀ t, b.InBounds debt (b.fresh t)) ∧
      ∀ s, b.InBounds debt s → ∀ times : List Instant,
        List.Forall₂
          (fun now outcome => b.InBounds debt outcome.2 ∧ outcome.2.lastUpdate = now ∧
            outcome.2.created = s.created)
          times (b.run s times) := by
  refine ⟨inBounds_fresh (le_trans (by norm_num) room), fun s within times => ?_⟩
  induction times generalizing s with
  | nil => exact .nil
  | cons now later ih =>
    have next := within.decide room now
    refine .cons ⟨next, b.decide_lastUpdate s now, b.decide_created s now⟩ ?_
    have rest := ih _ next
    rwa [b.decide_created] at rest

/-- One token per second over a clock that steps back and forward again. -/
theorem inBounds_run_onePerSecond :
    (1 / 10 ^ 9 : ℚ) ≤ 1 / 10 ^ 9 ∧
      List.Forall₂
        (fun now outcome => InBounds ⟨.tokenBucket, .onePerSecond⟩ (1 / 10 ^ 9) outcome.2 ∧
          outcome.2.lastUpdate = now ∧ outcome.2.created = Instant.second)
        [.second, .epoch, .second]
        (run ⟨.tokenBucket, .onePerSecond⟩ (fresh ⟨.tokenBucket, .onePerSecond⟩ .second)
          [.second, .epoch, .second]) := by
  obtain ⟨start, runs⟩ := inBounds_run ⟨.tokenBucket, .onePerSecond⟩ (le_refl (1 / 10 ^ 9))
  exact ⟨le_rfl, runs _ (start .second) _⟩

end Bucket

end Admission
