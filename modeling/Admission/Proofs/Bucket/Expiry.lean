import Admission.Proofs.Bucket.Monotone
import Admission.Store.Remote

/-!
# Standings that are forgotten

A server forgets a standing some whole seconds after it was written, and a key that was forgotten starts
afresh. How long that takes has nothing to do with the quota. Where the time is too short for the quota to
give back what one request needs, the fresh start lets a request through that the standing would not have.

## Main definitions

* `Bucket.Within`: the standings that a bucket leaves, as far as their credits go.
* `Bucket.exhausted`: the one of them that is worst off.
* `Bucket.ExpiryHarmless`: what is let through afresh would have been let through anyway.

## Main results

* `Bucket.allowed_fresh_iff`: a fresh start lets a request through if there is any burst.
* `Bucket.allowed_of_exhausted`: if the worst standing is let through after some whole seconds, then every
  standing is, from then on.
* `Bucket.expiryHarmless_iff`: which lifetimes are long enough.
-/

namespace Admission

open Binary64

-- Powers of natural numbers are the core library's, whatever else is in scope.
attribute [local instance (high)] instPowNat

/-! ### Whole seconds -/

/-- Whole seconds are computed to be no longer than any duration that is no shorter. -/
theorem Duration.roundedSeconds_le_of_whole {d e : Duration} (whole : d.subsecNanos = 0)
    (shorter : d.nanos ≤ e.nanos) : d.roundedSeconds ≤ e.roundedSeconds := by
  have seconds : (d.wholeSeconds : ℚ) ≤ e.wholeSeconds := by exact_mod_cast Nat.div_le_div_right shorter
  have fraction := rounded_nonneg e.fraction_nonneg
  rw [roundedSeconds, roundedSeconds, whole, Nat.cast_zero, zero_div, rounded_zero, add_zero]
  exact rounded_mono ((rounded_mono seconds).trans (le_add_of_nonneg_right fraction))

/-- More time gives no fewer credits than whole seconds do. -/
theorem accrual_le_of_whole (q : Quota) {d e : Duration} (whole : d.subsecNanos = 0)
    (shorter : d.nanos ≤ e.nanos) : accrual q d ≤ accrual q e :=
  rounded_mono <|
    mul_le_mul_of_nonneg_right (Duration.roundedSeconds_le_of_whole whole shorter) q.roundedRate_pos.le

variable {q : Quota} {s s' : Standing} {now now' : Instant}

/-! ### Better standings -/

namespace TokenBucket

theorem admits_congr (same : available q s now = available q s' now') : admits q s now = admits q s' now' := by
  rw [admits, admits, same]

theorem allowed_fresh_iff : (decide q (fresh q now) now).1.allowed = true ↔ q.burst ≠ 0 :=
  (decide_spec_of_denotes q now found_fresh).1.trans q.one_le_rounded_burst_add_slack_iff

end TokenBucket

namespace LeakyBucket

theorem admits_congr (same : level q s now = level q s' now') : admits q s now = admits q s' now' := by
  rw [admits, admits, same]

theorem allowed_fresh_iff : (decide q (fresh now) now).1.allowed = true ↔ q.burst ≠ 0 := by
  have found : Denotes (level q (fresh now) now) 0 := found_fresh
  have admission := (decide_spec_of_denotes q now found).1
  rw [zero_add, rounded_one] at admission
  exact admission.trans q.one_le_rounded_burst_add_slack_iff

end LeakyBucket

namespace Bucket

variable (b : Bucket)

/-- The credits of the standing are within what the bucket leaves: up to the burst, and below nothing by no
more than the slack for tokens, not at all for a level. -/
def Within (s : Standing) : Prop :=
  ∃ c, Denotes s.credits c ∧ c ≤ b.quota.roundedBurst ∧
    match b.algorithm with
    | .tokenBucket => -slack ≤ c
    | .leakyBucket => 0 ≤ c

/-- The standing within these bounds that is worst off: no tokens and all slack taken, or a full level. -/
def exhausted (t : Instant) : Standing :=
  match b.algorithm with
  | .tokenBucket => .fresh creditSlack.neg t
  | .leakyBucket => .fresh b.quota.ceiling t

variable {b}

/-- The bounds hold of all credits between minus a billionth, or nothing for a level, and the burst. -/
theorem within_of_le {c : ℚ} (h : Denotes s.credits c) (high : c ≤ b.quota.burst.toNat)
    (low : match b.algorithm with
      | .tokenBucket => -(1 / 10 ^ 9) ≤ c
      | .leakyBucket => 0 ≤ c) : b.Within s := by
  refine ⟨c, h, ?_, ?_⟩
  · rw [← h.rounded_eq]
    exact rounded_mono high
  · rcases b with ⟨_ | _, q⟩
    · have low : -(1 / 10 ^ 9) ≤ c := low
      exact le_trans (neg_le_neg one_div_le_slack) low
    · exact low

theorem lastUpdate_exhausted (t : Instant) : (b.exhausted t).lastUpdate = t := by
  rcases b with ⟨_ | _, q⟩ <;> rfl

theorem denotes_exhausted_tokenBucket (q : Quota) (t : Instant) :
    Denotes (exhausted ⟨.tokenBucket, q⟩ t).credits (-slack) := by
  simp only [exhausted, Standing.fresh]
  exact denotes_creditSlack.neg

theorem denotes_exhausted_leakyBucket (q : Quota) (t : Instant) :
    Denotes (exhausted ⟨.leakyBucket, q⟩ t).credits q.roundedBurst := q.denotes_ceiling

theorem within_exhausted (t : Instant) : b.Within (b.exhausted t) := by
  rcases b with ⟨_ | _, q⟩
  · exact ⟨-slack, denotes_exhausted_tokenBucket q t,
      (neg_nonpos.2 slack_pos.le).trans q.roundedBurst_nonneg, le_rfl⟩
  · exact ⟨q.roundedBurst, denotes_exhausted_leakyBucket q t, le_rfl, q.roundedBurst_nonneg⟩

/-- A fresh start lets a request through if there is any burst. -/
theorem allowed_fresh_iff : (b.decide (b.fresh now) now).1.allowed = true ↔ b.quota.burst ≠ 0 := by
  rcases b with ⟨_ | _, q⟩
  · exact TokenBucket.allowed_fresh_iff
  · exact LeakyBucket.allowed_fresh_iff

/-- If the worst standing is let through after some time, every standing is that was left alone for whole
seconds no shorter. -/
theorem allowed_of_exhausted {t : Instant} (within : b.Within s)
    (whole : (t.since now).subsecNanos = 0)
    (later : (t.since now).nanos ≤ (s.lastUpdate.since now').nanos)
    (allowed : (b.decide (b.exhausted t) now).1.allowed = true) :
    (b.decide s now').1.allowed = true := by
  have accrued := accrual_le_of_whole b.quota whole later
  obtain ⟨c, credits, high, low⟩ := within
  rcases b with ⟨_ | _, q⟩
  · have more := ((denotes_exhausted_tokenBucket q t).le_iff credits).2 low
    exact (TokenBucket.noBetter (TokenBucket.available_mono more accrued)).1.allowed allowed
  · have less := (credits.le_iff (denotes_exhausted_leakyBucket q t)).2 high
    exact (LeakyBucket.noBetter (LeakyBucket.level_mono less accrued)).1.allowed allowed

/-- Whether the worst standing is let through depends on how long it was left alone, and on nothing else. -/
theorem allowed_exhausted_congr {t t' : Instant} (apart : t.since now = t'.since now') :
    (b.decide (b.exhausted t) now).1.allowed = (b.decide (b.exhausted t') now').1.allowed := by
  rcases b with ⟨_ | _, q⟩
  · simp only [decide, TokenBucket.decide]
    refine TokenBucket.admits_congr ?_
    simp only [exhausted, TokenBucket.available, Standing.fresh, apart]
  · simp only [decide, LeakyBucket.decide]
    refine LeakyBucket.admits_congr ?_
    simp only [exhausted, LeakyBucket.level, Standing.fresh, apart]

/-! ### Lifetimes -/

/-- What a key would be let through afresh, once its standing was forgotten, it would have been let through
anyway: whatever standing was written within the bounds, at no reading since the server could forget it is
a request let through afresh that is denied on the standing. -/
def ExpiryHarmless (b : Bucket) (lifetime : Duration) : Prop :=
  ∀ (s : Standing) (now : Instant), b.Within s →
    s.lastUpdate.nanos + nanosPerSecond * RemoteStore.lifetimeSeconds lifetime ≤ now.nanos →
      (b.decide (b.fresh now) now).1.allowed = true → (b.decide s now).1.allowed = true

end Bucket

theorem RemoteStore.lifetimeSeconds_lt (d : Duration) : lifetimeSeconds d < 2 ^ (64 : ℕ) := by
  have whole := d.wholeSeconds_lt
  rw [lifetimeSeconds]
  split <;> omega

theorem Instant.nanos_since (t u : Instant) : (t.since u).nanos = (u.nanos - t.nanos).toNat := rfl

/-- There are instants that lie any whole seconds apart that a server can count. -/
theorem Instant.exists_apart {seconds : ℕ} (few : seconds < 2 ^ (64 : ℕ)) :
    ∃ t now : Instant, now.nanos = t.nanos + nanosPerSecond * seconds := by
  refine ⟨⟨-reach, by decide, by decide⟩, ⟨-reach + nanosPerSecond * seconds, ?_, ?_⟩, rfl⟩ <;>
    simp only [reach, nanosPerSecond] <;> omega

/-- A lifetime is harmless exactly if there is no burst, or if even the worst standing is let through at the
moment at which the server forgets it. -/
theorem Bucket.expiryHarmless_iff (b : Bucket) (lifetime : Duration) :
    b.ExpiryHarmless lifetime ↔ b.quota.burst = 0 ∨
      ∀ t now : Instant, now.nanos = t.nanos + nanosPerSecond * RemoteStore.lifetimeSeconds lifetime →
        (b.decide (b.exhausted t) now).1.allowed = true := by
  constructor
  · intro harmless
    by_cases none : b.quota.burst = 0
    · exact .inl none
    · refine .inr fun t now forgotten => ?_
      refine harmless _ now (within_exhausted t) ?_ (allowed_fresh_iff.2 none)
      rw [lastUpdate_exhausted, forgotten]
  · rintro (none | worst) s now within later fresh
    · exact absurd none (allowed_fresh_iff.1 fresh)
    · obtain ⟨t, moment, forgotten⟩ := Instant.exists_apart (RemoteStore.lifetimeSeconds_lt lifetime)
      have elapsed : (t.since moment).nanos = nanosPerSecond * RemoteStore.lifetimeSeconds lifetime := by
        rw [Instant.nanos_since, forgotten]
        omega
      refine allowed_of_exhausted within ?_ ?_ (worst t moment forgotten)
      · rw [Duration.subsecNanos, elapsed, Nat.mul_mod_right]
      · rw [elapsed, Instant.nanos_since]
        omega

/-- The default lifetime of a day is harmless for a token every second, of which there can be one. -/
theorem Bucket.expiryHarmless_onePerSecond :
    Quota.onePerSecond.burst ≠ 0 ∧
      ExpiryHarmless ⟨.tokenBucket, .onePerSecond⟩ RemoteStore.defaultLifetime := by
  refine ⟨by decide, (expiryHarmless_iff _ _).2 (.inr fun t now forgotten => ?_)⟩
  have day : RemoteStore.lifetimeSeconds RemoteStore.defaultLifetime = 86400 := by decide
  -- All that counts is that a day has passed, wherever it began.
  have apart : t.since now = Instant.epoch.since ⟨86400000000000, by decide, by decide⟩ := by
    simp only [Instant.since, forgotten, day, Duration.mk.injEq]
    simp only [nanosPerSecond, Instant.epoch]
    omega
  rw [allowed_exhausted_congr apart]
  decide +kernel

/-- A bucket that gives one token every two days. -/
def Bucket.onePerTwoDays : Bucket :=
  ⟨.tokenBucket,
    { Quota.onePerSecond with interval := ⟨172800000000000, by decide⟩, interval_ne_zero := by decide }⟩

/-- The default lifetime of a day lets a request through that the standing of a token every two days would
have denied. -/
theorem Bucket.not_expiryHarmless_onePerTwoDays :
    ¬ onePerTwoDays.ExpiryHarmless RemoteStore.defaultLifetime := by
  intro harmless
  have bounds : onePerTwoDays.Within (.fresh 0 .epoch) :=
    within_of_le denotes_ofNat_zero (Nat.cast_nonneg _) (by norm_num [onePerTwoDays])
  have denied : ¬ (onePerTwoDays.decide (.fresh 0 .epoch) ⟨86400000000000, by decide, by decide⟩).1.allowed := by
    decide +kernel
  exact denied (harmless _ _ bounds (by decide) (by decide +kernel))

end Admission
