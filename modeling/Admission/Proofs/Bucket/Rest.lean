import Admission.Proofs.Bucket.Monotone
import Admission.Proofs.Bucket.Regression
import Admission.Proofs.Bucket.Sound

/-!
# Back at rest

A decision tells when its bucket is expected to be back at rest: full of tokens, or empty. The time told is
that of the credits that are missing before the request is charged. Whoever looks again at that time finds
the bucket at rest but for the unit that was charged, and for a few roundings, which may cost one more unit
of those that are counted whole.

## Main definitions

* `Bucket.room`: what a bucket has left, before it is counted in whole units.
* `Bucket.restSeconds`: the seconds until the bucket is at rest.
* `Bucket.Rests`: the bucket is at rest, up to what was charged and the roundings.
* `Bucket.FallsShort`: the whole burst is not there at the time told.

## Main results

* `TokenBucket.le_available_at_rest`, `LeakyBucket.level_at_rest_le`: what is found after the time told.
* `Bucket.rests_at_resetTime`: what is found at the time told.
* `Bucket.fallsShort_at_resetTime`: what can be missing then.
-/

namespace Admission

open Binary64

-- Powers of natural numbers are the core library's, whatever else is in scope.
attribute [local instance (high)] instPowNat

variable {q : Quota} {s : Standing} {now rest : Instant} {y : Binary64} {g : ℚ}

/-- The wait comes after the time that has passed before it. -/
theorem Instant.nanos_since_of_add? {t u v : Instant} {w : Duration} (forward : t.nanos ≤ u.nanos)
    (h : u.add? w = some v) : (t.since v).nanos = (t.since u).nanos + w.nanos := by
  have moment : v.nanos = u.nanos + w.nanos := nanos_ofNanos? h
  change (v.nanos - t.nanos).toNat = (u.nanos - t.nanos).toNat + w.nanos
  omega

/-! ### Token buckets -/

namespace TokenBucket

variable {a c : ℚ}

/-- Below the burst a refill is rounded by a grain at most. -/
theorem abs_rounded_refill_sub_le (small : q.burst.toNat < 2 ^ (53 : ℕ)) {d : Duration} (h : Denotes y c)
    (low : -slack ≤ c) (short : rounded (c + accrual q d) < q.burst.toNat) :
    |rounded (c + accrual q d) - (c + accrual q d)| ≤ q.grain := by
  have burst : (0 : ℚ) ≤ q.burst.toNat := Nat.cast_nonneg _
  refine abs_rounded_sub_le_grain (h.onGrid.add (onGrid_accrual q d)) (abs_le.2 ⟨?_, ?_⟩)
  · linarith [slack_le, accrual_nonneg q d]
  · by_contra above
    rw [← rounded_natCast small.le] at short
    exact absurd (rounded_mono (by linarith)) (not_le.2 short)

/-- What is found after the time that some credits take is what was found before and these credits, up to ten
roundings. -/
theorem le_available_at_rest (small : q.burst.toNat < 2 ^ (53 : ℕ)) (h : Denotes s.credits c) (low : -slack ≤ c)
    (forward : s.lastUpdate.nanos ≤ now.nanos) (found : Denotes (available q s now) a) (gap : Denotes y g)
    (nonneg : 0 ≤ g) (missing : a + g ≤ q.burst.toNat + q.grain) (told : y / q.rate ≤ Duration.max.seconds)
    (waited : now.add? (Duration.covering (y / q.rate)) = some rest) :
    ∃ r, Denotes (available q s rest) r ∧ a + g - 10 * q.grain ≤ r ∧ r ≤ q.burst.toNat := by
  have top := Quota.roundedBurst_eq small
  have sum := Instant.nanos_since_of_add? forward waited
  have more : accrual q (s.lastUpdate.since now) ≤ accrual q (s.lastUpdate.since rest) :=
    accrual_mono (sum ▸ Nat.le_add_right _ _)
  have before := found.unique (denotes_available q now h)
  have debt : -slack ≤ a := before ▸ (ready_bounds slack_pos.le h low).1
  refine ⟨_, denotes_available q rest h, ?_, inf_le_right.trans_eq top⟩
  rw [ready, top] at before ⊢
  rcases le_or_gt (q.burst.toNat : ℚ) (rounded (c + accrual q (s.lastUpdate.since rest))) with full | short
  · rw [inf_eq_right.2 full]
    linarith [q.grain_nonneg]
  · rw [inf_eq_left.2 short.le]
    -- Neither what was found nor what is found reaches the burst, so both are rounded by a grain at most.
    have shortBefore := (rounded_mono (add_le_add_right more c)).trans_lt short
    rw [inf_eq_left.2 shortBefore.le] at before
    have first := (abs_le.1 (abs_rounded_refill_sub_le small h low shortBefore)).2
    have last := (abs_le.1 (abs_rounded_refill_sub_le small h low short)).1
    rw [← before] at first
    have slackHigh := slack_le
    have high : g ≤ 2 ^ 65 := by
      have few : (q.burst.toNat : ℚ) ≤ 2 ^ 53 := by exact_mod_cast small.le
      norm_num [Quota.grain, roundoff] at missing ⊢
      linarith
    have given := add_mul_le_accrual gap nonneg high told sum
    norm_num [Quota.grain, roundoff] at missing first last given ⊢
    linarith

/-- What is missing from the burst, as computed. -/
theorem denotes_missing (small : q.burst.toNat < 2 ^ (53 : ℕ)) (found : Denotes (available q s now) a)
    (low : -slack ≤ a) :
    ∃ g, Denotes (q.ceiling - available q s now) g ∧ 0 ≤ g ∧ q.burst.toNat - q.grain ≤ a + g ∧
      a + g ≤ q.burst.toNat + q.grain := by
  have high := le_roundedBurst_of_found found
  have gap := q.denotes_ceiling.small_sub found q.abs_roundedBurst_lt
  rw [Quota.roundedBurst_eq small] at high gap
  have near := abs_rounded_sub_le_grain (q := q) ((onGrid_natCast _).sub found.onGrid)
    (abs_le.2 ⟨by linarith, by linarith [slack_le]⟩)
  refine ⟨_, gap, rounded_nonneg (sub_nonneg.2 high), ?_, ?_⟩
  · linarith [(abs_le.1 near).1]
  · linarith [(abs_le.1 near).2]

/-- What a decision leaves falls short of what it found by the unit that it spends, up to a rounding. -/
theorem exists_left (small : q.burst.toNat < 2 ^ (53 : ℕ)) (found : Denotes (available q s now) a)
    (low : -slack ≤ a) :
    ∃ c, Denotes (decide q s now).2.credits c ∧ Denotes (available q (decide q s now).2 now) c ∧ -slack ≤ c ∧
      c ≤ a ∧ a - (decide q s now).1.allowed.toNat - q.grain ≤ c := by
  obtain ⟨admission, kept⟩ := decide_spec_of_denotes q now found
  refine ⟨_, kept, found_again found, ?_⟩
  cases allowed : (decide q s now).1.allowed with
  | false =>
    rw [if_neg Bool.false_ne_true, Bool.toNat_false, Nat.cast_zero, sub_zero]
    exact ⟨low, le_rfl, sub_le_self a q.grain_nonneg⟩
  | true =>
    have debt := neg_le_rounded_sub_one found (admission.1 allowed)
    have high := le_roundedBurst_of_found found
    rw [Quota.roundedBurst_eq small] at high
    have near := abs_rounded_sub_le_grain (q := q) (found.onGrid.sub (by simpa using onGrid_natCast 1))
      (abs_le.2 ⟨by linarith [pos_of_le_rounded (admission.1 allowed)], by linarith⟩)
    rw [if_pos rfl, Bool.toNat_true, Nat.cast_one]
    refine ⟨(neg_le_neg one_div_le_slack).trans debt, ?_, by linarith [(abs_le.1 near).1]⟩
    exact (rounded_mono (sub_le_self a zero_le_one)).trans_eq found.rounded_eq

/-- After the time told by a decision what it left is full again, up to what it spent. -/
theorem available_after_decide (small : q.burst.toNat < 2 ^ (53 : ℕ)) (low : creditSlack.neg ≤ s.credits)
    (told : (q.ceiling - available q s now) / q.rate ≤ Duration.max.seconds)
    (waited : now.add? (Duration.covering ((q.ceiling - available q s now) / q.rate)) = some rest) :
    ∃ r, Denotes (available q (decide q s now).2 rest) r ∧
      q.burst.toNat - (decide q s now).1.allowed.toNat - 12 * q.grain ≤ r ∧ r ≤ q.burst.toNat := by
  obtain ⟨a, found, low⟩ := exists_available q now low
  obtain ⟨g, gap, nonneg, all, most⟩ := denotes_missing small found low
  obtain ⟨c, kept, again, debt, less, spent⟩ := exists_left small found low
  obtain ⟨r, found', more, top⟩ :=
    le_available_at_rest small kept debt le_rfl again gap nonneg (by linarith) told waited
  exact ⟨r, found', by linarith, top⟩

/-- After the time told by a preview the same credits are full again. -/
theorem available_after_preview (small : q.burst.toNat < 2 ^ (53 : ℕ)) (low : creditSlack.neg ≤ s.credits)
    (forward : s.lastUpdate.nanos ≤ now.nanos)
    (told : (q.ceiling - available q s now) / q.rate ≤ Duration.max.seconds)
    (waited : now.add? (Duration.covering ((q.ceiling - available q s now) / q.rate)) = some rest) :
    ∃ r, Denotes (available q s rest) r ∧ q.burst.toNat - 12 * q.grain ≤ r ∧ r ≤ q.burst.toNat := by
  rcases denotes_creditSlack.neg.cases_of_le low with ⟨c, credits, low⟩ | endless
  · have found := denotes_available q now credits
    obtain ⟨g, gap, nonneg, all, most⟩ := denotes_missing small found (ready_bounds slack_pos.le credits low).1
    obtain ⟨r, found', more, top⟩ :=
      le_available_at_rest small credits low forward found gap nonneg most told waited
    exact ⟨r, found', by linarith, top⟩
  · refine ⟨q.burst.toNat, ?_, by linarith [q.grain_nonneg], le_rfl⟩
    rw [available, endless, (denotes_accrual q _).infinity_add, q.denotes_ceiling.infinity_min,
      if_neg Bool.false_ne_true, ← Quota.roundedBurst_eq small]
    exact q.denotes_ceiling

end TokenBucket

/-! ### Leaky buckets -/

namespace LeakyBucket

variable {l m : ℚ}

/-- Above zero a leak is rounded by a grain at most. -/
theorem abs_rounded_leak_sub_le (small : q.burst.toNat < 2 ^ (53 : ℕ)) {d : Duration} (h : Denotes y l)
    (high : l ≤ brim q) (some : 0 < rounded (l - accrual q d)) :
    |rounded (l - accrual q d) - (l - accrual q d)| ≤ q.grain := by
  have burst : (0 : ℚ) ≤ q.burst.toNat := Nat.cast_nonneg _
  refine abs_rounded_sub_le_grain (h.onGrid.sub (onGrid_accrual q d)) (abs_le.2 ⟨?_, ?_⟩)
  · by_contra empty
    exact absurd (rounded_nonpos (by linarith)) (not_le.2 some)
  · linarith [brim_lt small, accrual_nonneg q d]

/-- What is found after the time that some units take to drain is what was found before less these units, up to
ten roundings. -/
theorem level_at_rest_le (small : q.burst.toNat < 2 ^ (53 : ℕ)) (h : Denotes s.credits l) (high : l ≤ brim q)
    (forward : s.lastUpdate.nanos ≤ now.nanos) (found : Denotes (level q s now) m) (gap : Denotes y g)
    (nonneg : 0 ≤ g) (part : g ≤ m) (told : y / q.rate ≤ Duration.max.seconds)
    (waited : now.add? (Duration.covering (y / q.rate)) = some rest) :
    ∃ r, Denotes (level q s rest) r ∧ 0 ≤ r ∧ r ≤ m - g + 10 * q.grain := by
  have top := brim_lt small
  have sum := Instant.nanos_since_of_add? forward waited
  have more : accrual q (s.lastUpdate.since now) ≤ accrual q (s.lastUpdate.since rest) :=
    accrual_mono (sum ▸ Nat.le_add_right _ _)
  have before := found.unique (denotes_level q now h)
  have below : m ≤ brim q := before ▸ (drained_bounds h high).2
  refine ⟨_, denotes_level q rest h, le_sup_right, ?_⟩
  rw [drained] at before ⊢
  rcases le_or_gt (rounded (l - accrual q (s.lastUpdate.since rest))) 0 with empty | some
  · rw [sup_eq_right.2 empty]
    linarith [q.grain_nonneg]
  · rw [sup_eq_left.2 some.le]
    -- Something was left and something is left, so both are rounded by a grain at most.
    have someBefore := some.trans_le (rounded_mono (sub_le_sub_left more l))
    rw [sup_eq_left.2 someBefore.le] at before
    obtain ⟨firstLow, firstHigh⟩ := abs_le.1 (abs_rounded_leak_sub_le small h high someBefore)
    have last := (abs_le.1 (abs_rounded_leak_sub_le small h high some)).2
    rw [← before] at firstLow firstHigh
    have few : (q.burst.toNat : ℚ) ≤ 2 ^ 53 := by exact_mod_cast small.le
    have given := add_mul_le_accrual gap nonneg (by linarith) told sum
    norm_num [Quota.grain, roundoff] at firstLow firstHigh last given ⊢
    linarith

/-- What a decision leaves exceeds what it found by the unit that it pours, up to a rounding. -/
theorem exists_filled (small : q.burst.toNat < 2 ^ (53 : ℕ)) (found : Denotes (level q s now) m)
    (high : m ≤ brim q) :
    ∃ l, Denotes (decide q s now).2.credits l ∧ Denotes (level q (decide q s now).2 now) l ∧ l ≤ brim q ∧
      m ≤ l ∧ l ≤ m + (decide q s now).1.allowed.toNat + q.grain := by
  obtain ⟨admission, kept⟩ := decide_spec_of_denotes q now found
  refine ⟨_, kept, found_again found, ?_⟩
  cases allowed : (decide q s now).1.allowed with
  | false =>
    rw [if_neg Bool.false_ne_true, Bool.toNat_false, Nat.cast_zero, add_zero]
    exact ⟨high, le_rfl, le_add_of_nonneg_right q.grain_nonneg⟩
  | true =>
    have fits := admission.1 allowed
    have room := lt_of_rounded_add_one_le small fits
    have near := abs_rounded_sub_le_grain (q := q) (found.onGrid.add (by simpa using onGrid_natCast 1))
      (abs_le.2 ⟨by linarith [nonneg_of_found found], by linarith⟩)
    rw [if_pos rfl, Bool.toNat_true, Nat.cast_one]
    refine ⟨fits, ?_, by linarith [(abs_le.1 near).2]⟩
    exact found.rounded_eq.ge.trans (rounded_mono (le_add_of_nonneg_right zero_le_one))

/-- After the time told by a decision what it left is empty again, up to what it poured. -/
theorem level_after_decide (small : q.burst.toNat < 2 ^ (53 : ℕ)) (low : 0 ≤ s.credits)
    (high : s.credits ≤ q.ceiling + creditSlack) (told : level q s now / q.rate ≤ Duration.max.seconds)
    (waited : now.add? (Duration.covering (level q s now / q.rate)) = some rest) :
    ∃ r, Denotes (level q (decide q s now).2 rest) r ∧ 0 ≤ r ∧
      r ≤ (decide q s now).1.allowed.toNat + 11 * q.grain := by
  obtain ⟨l, credits, -, high⟩ := denotes_ofNat_zero.exists_between (denotes_brim q) low high
  have found := denotes_level q now credits
  obtain ⟨m, kept, again, high, more, poured⟩ := exists_filled small found (drained_bounds credits high).2
  obtain ⟨r, found', bottom, less⟩ :=
    level_at_rest_le small kept high le_rfl again found (nonneg_of_found found) more told waited
  exact ⟨r, found', bottom, by linarith⟩

/-- After the time told by a preview the same level is empty again. -/
theorem level_after_preview (small : q.burst.toNat < 2 ^ (53 : ℕ)) (low : 0 ≤ s.credits)
    (high : s.credits ≤ q.ceiling + creditSlack) (forward : s.lastUpdate.nanos ≤ now.nanos)
    (told : level q s now / q.rate ≤ Duration.max.seconds)
    (waited : now.add? (Duration.covering (level q s now / q.rate)) = some rest) :
    ∃ r, Denotes (level q s rest) r ∧ 0 ≤ r ∧ r ≤ 11 * q.grain := by
  obtain ⟨l, credits, -, high⟩ := denotes_ofNat_zero.exists_between (denotes_brim q) low high
  have found := denotes_level q now credits
  obtain ⟨r, found', bottom, less⟩ := level_at_rest_le small credits high forward found found
    (nonneg_of_found found) le_rfl told waited
  exact ⟨r, found', bottom, by linarith [q.grain_nonneg]⟩

/-- No more is poured than there is a burst for. -/
theorem allowed_toNat_le_burst (q : Quota) (s : Standing) (now : Instant) :
    (decide q s now).1.allowed.toNat ≤ q.burst.toNat := by
  cases allowed : (decide q s now).1.allowed with
  | false => exact Nat.zero_le _
  | true => exact UInt64.le_iff_toNat_le.1 (Quota.one_le_burst (burst_ne_zero_of_allowed allowed))

/-- The room above a level that is nothing but some units and a few roundings. -/
theorem denotes_room (small : q.burst.toNat < 2 ^ (53 : ℕ)) (found : Denotes (level q s now) m) (low : 0 ≤ m)
    {n : ℕ} (few : n ≤ q.burst.toNat) (high : m ≤ n + 11 * q.grain) :
    ∃ r, Denotes (q.ceiling - level q s now) r ∧ q.burst.toNat - n - 12 * q.grain ≤ r ∧ r ≤ q.burst.toNat := by
  have room := q.denotes_ceiling.small_sub found q.abs_roundedBurst_lt
  rw [Quota.roundedBurst_eq small] at room
  have bound : (q.burst.toNat : ℚ) ≤ 2 ^ 53 := by exact_mod_cast small.le
  have some : (n : ℚ) ≤ q.burst.toNat := by exact_mod_cast few
  have none : (0 : ℚ) ≤ n := Nat.cast_nonneg _
  have near := abs_rounded_sub_le_grain (q := q) ((onGrid_natCast q.burst.toNat).sub found.onGrid)
    (abs_le.2 ⟨by norm_num [Quota.grain, roundoff] at high; linarith, by linarith⟩)
  refine ⟨_, room, by linarith [(abs_le.1 near).1], ?_⟩
  exact (rounded_mono (sub_le_self _ low)).trans_eq (rounded_natCast small.le)

end LeakyBucket

/-! ### Both buckets -/

namespace Bucket

/-- The credits found, or the room above the level found. -/
def room (b : Bucket) (s : Standing) (now : Instant) : Binary64 :=
  match b.algorithm with
  | .tokenBucket => TokenBucket.available b.quota s now
  | .leakyBucket => b.quota.ceiling - LeakyBucket.level b.quota s now

/-- The seconds that the missing credits take to accrue, or the level to drain. -/
def restSeconds (b : Bucket) (s : Standing) (now : Instant) : Binary64 :=
  match b.algorithm with
  | .tokenBucket => (b.quota.ceiling - TokenBucket.available b.quota s now) / b.quota.rate
  | .leakyBucket => LeakyBucket.level b.quota s now / b.quota.rate

/-- A preview at the second instant counts the whole units of a room that is the burst less what was charged,
up to a few roundings, and no fewer than at the first instant. -/
structure Rests (b : Bucket) (s : Standing) (now rest : Instant) (charged : ℕ) : Prop where
  room : ∃ r : ℚ, b.quota.burst.toNat - charged - (b.quota.burst.toNat + 1) / 2 ^ 49 ≤ r ∧
    r ≤ b.quota.burst.toNat ∧ (b.preview s rest).remaining.toNat = ⌊r⌋₊
  noFewer : (b.preview s now).remaining ≤ (b.preview s rest).remaining

variable {b : Bucket}

theorem preview_remaining_eq (b : Bucket) (s : Standing) (now : Instant) :
    (b.preview s now).remaining = (b.room s now).floorClamped := by
  rcases b with ⟨_ | _, q⟩ <;> rfl

theorem preview_resetTime_eq (b : Bucket) (s : Standing) (now : Instant) :
    (b.preview s now).resetTime = now.offset (b.restSeconds s now) := by
  rcases b with ⟨_ | _, q⟩ <;> rfl

theorem rests_of_denotes {charged : ℕ} {r : ℚ} (number : s.credits.isNaN = false)
    (later : now.nanos ≤ rest.nanos) (found : Denotes (b.room s rest) r)
    (low : b.quota.burst.toNat - charged - 12 * b.quota.grain ≤ r) (high : r ≤ b.quota.burst.toNat) :
    b.Rests s now rest charged where
  room := by
    refine ⟨r, ?_, high, ?_⟩
    · have burst : (0 : ℚ) ≤ b.quota.burst.toNat := Nat.cast_nonneg _
      norm_num [Quota.grain, roundoff] at low ⊢
      linarith
    · rw [preview_remaining_eq]
      refine found.floorClamped_eq_floor (high.trans_lt ?_)
      exact_mod_cast b.quota.burst.toNat_lt
  noFewer := b.preview_remaining_mono number later

theorem Recoverable.isNaN (h : b.Recoverable s) : s.credits.isNaN = false := by
  rcases b with ⟨_ | _, q⟩
  · exact isNaN_right_of_le h
  · exact isNaN_right_of_le h.1

/-- At the time that a decision and a preview tell, if there is such a time and the wait for it is not cut off
at the longest duration, the bucket is at rest: what the decision left but for what it charged, and what was
there before, if it had not been brought up to date later than now. -/
theorem rests_at_resetTime (b : Bucket) (small : b.quota.burst.toNat < 2 ^ (53 : ℕ)) (s : Standing)
    (within : b.Recoverable s) (now rest : Instant) (told : b.restSeconds s now ≤ Duration.max.seconds)
    (waited : now.add? (Duration.covering (b.restSeconds s now)) = some rest) :
    (b.decide s now).1.resetTime = rest ∧ (b.preview s now).resetTime = rest ∧
      b.Rests (b.decide s now).2 now rest (b.decide s now).1.allowed.toNat ∧
      (s.lastUpdate.nanos ≤ now.nanos → b.Rests s now rest 0) := by
  have moment : (b.preview s now).resetTime = rest := by
    rw [preview_resetTime_eq, Instant.offset, waited, Option.getD_some]
  have decided := (b.preview_agrees s now).resetTime.symm.trans moment
  have later : now.nanos ≤ rest.nanos := by
    rw [Instant.nanos_ofNanos? waited]
    exact Int.le_add_of_nonneg_right (Int.natCast_nonneg _)
  have number := within.isNaN
  have kept := (b.decide_bounded s now).number
  rcases b with ⟨_ | _, q⟩
  · refine ⟨decided, moment, ?_, fun forward => ?_⟩
    · obtain ⟨r, found, low, high⟩ := TokenBucket.available_after_decide small within told waited
      exact rests_of_denotes kept later found low high
    · obtain ⟨r, found, low, high⟩ := TokenBucket.available_after_preview small within forward told waited
      have low : q.burst.toNat - (0 : ℕ) - 12 * q.grain ≤ r := by rwa [Nat.cast_zero, sub_zero]
      exact rests_of_denotes number later found low high
  · refine ⟨decided, moment, ?_, fun forward => ?_⟩
    · obtain ⟨m, found, bottom, less⟩ := LeakyBucket.level_after_decide small within.1 within.2 told waited
      obtain ⟨r, found, low, high⟩ := LeakyBucket.denotes_room small found bottom
        (LeakyBucket.allowed_toNat_le_burst q s now) less
      exact rests_of_denotes kept later found low high
    · obtain ⟨m, found, bottom, less⟩ :=
        LeakyBucket.level_after_preview small within.1 within.2 forward told waited
      obtain ⟨r, found, low, high⟩ :=
        LeakyBucket.denotes_room (n := 0) small found bottom (Nat.zero_le _) (by simpa using less)
      exact rests_of_denotes number later found low high

/-- A bucket that gives one token per second has its token back a second after it was found without. -/
theorem rests_at_resetTime_onePerSecond :
    Quota.onePerSecond.burst.toNat < 2 ^ (53 : ℕ) ∧ Recoverable ⟨.tokenBucket, .onePerSecond⟩ (.fresh 0 .epoch) ∧
      restSeconds ⟨.tokenBucket, .onePerSecond⟩ (.fresh 0 .epoch) .epoch ≤ Duration.max.seconds ∧
      Instant.epoch.add?
          (Duration.covering (restSeconds ⟨.tokenBucket, .onePerSecond⟩ (.fresh 0 .epoch) .epoch)) =
        some .second ∧
      (preview ⟨.tokenBucket, .onePerSecond⟩ (.fresh 0 .epoch) .epoch).resetTime = .second ∧
      Rests ⟨.tokenBucket, .onePerSecond⟩ (.fresh 0 .epoch) .epoch .second 0 := by
  have small : Quota.onePerSecond.burst.toNat < 2 ^ (53 : ℕ) := by decide
  have within : Recoverable ⟨.tokenBucket, .onePerSecond⟩ (.fresh 0 .epoch) := by decide +kernel
  have told : restSeconds ⟨.tokenBucket, .onePerSecond⟩ (.fresh 0 .epoch) .epoch ≤ Duration.max.seconds := by
    decide +kernel
  have waited : Instant.epoch.add?
      (Duration.covering (restSeconds ⟨.tokenBucket, .onePerSecond⟩ (.fresh 0 .epoch) .epoch)) =
        some .second := by
    decide +kernel
  obtain ⟨-, moment, -, rests⟩ :=
    rests_at_resetTime ⟨.tokenBucket, .onePerSecond⟩ small (.fresh 0 .epoch) within .epoch .second told waited
  exact ⟨small, within, told, waited, moment, rests le_rfl⟩

/-! ### Not at rest -/

/-- A standing is within its bounds and is told a time, but at that time a preview of what was kept does not
count the whole burst. -/
def FallsShort (b : Bucket) (s : Standing) (now : Instant) (kept : Standing) (told : Instant) : Prop :=
  b.Recoverable s ∧ (now.add? (Duration.covering (b.restSeconds s now))).isSome = true ∧
    (b.preview kept told).remaining ≠ b.quota.burst

instance (b : Bucket) (s : Standing) (now : Instant) (kept : Standing) (told : Instant) :
    Decidable (b.FallsShort s now kept told) := inferInstanceAs (Decidable (_ ∧ _ ∧ _))

end Bucket

/-- One credit per nanosecond, and one at once. -/
def Quota.onePerNanosecond : Quota :=
  { Quota.onePerSecond with
    interval := Duration.nanosecond, interval_ne_zero := Quota.fastest.interval_ne_zero }

/-- One credit in the longest interval there is, and two at once. -/
def Quota.slowest : Quota :=
  { Quota.onePerSecond with interval := Duration.max, burst := 2, interval_ne_zero := by decide }

/-- The whole burst is not there at the time told: where a unit was charged, where a rounding costs a unit,
where the clock stands before the last update, and where the wait is cut off. -/
theorem Bucket.fallsShort_at_resetTime :
    FallsShort ⟨.tokenBucket, .onePerSecond⟩ (.fresh 1 .epoch) .epoch
        (decide ⟨.tokenBucket, .onePerSecond⟩ (.fresh 1 .epoch) .epoch).2
        (decide ⟨.tokenBucket, .onePerSecond⟩ (.fresh 1 .epoch) .epoch).1.resetTime ∧
      FallsShort ⟨.leakyBucket, .onePerSecond⟩ (.fresh 0 .epoch) .epoch
        (decide ⟨.leakyBucket, .onePerSecond⟩ (.fresh 0 .epoch) .epoch).2
        (decide ⟨.leakyBucket, .onePerSecond⟩ (.fresh 0 .epoch) .epoch).1.resetTime ∧
      FallsShort ⟨.tokenBucket, .onePerNanosecond⟩ (.fresh 0 .epoch) .epoch (.fresh 0 .epoch)
        (preview ⟨.tokenBucket, .onePerNanosecond⟩ (.fresh 0 .epoch) .epoch).resetTime ∧
      FallsShort ⟨.leakyBucket, .onePerNanosecond⟩ (.fresh 1 .epoch) .epoch (.fresh 1 .epoch)
        (preview ⟨.leakyBucket, .onePerNanosecond⟩ (.fresh 1 .epoch) .epoch).resetTime ∧
      FallsShort ⟨.tokenBucket, .onePerSecond⟩ (.fresh 0 .second) .epoch (.fresh 0 .second)
        (preview ⟨.tokenBucket, .onePerSecond⟩ (.fresh 0 .second) .epoch).resetTime ∧
      FallsShort ⟨.tokenBucket, .slowest⟩ (.fresh 0 .earliest) .earliest (.fresh 0 .earliest)
        (preview ⟨.tokenBucket, .slowest⟩ (.fresh 0 .earliest) .earliest).resetTime := by
  decide +kernel

end Admission
