import Admission.Proofs.Bucket.Repeated
import Admission.Proofs.Bucket.Retry

/-!
# More credit and more time

Who is better off, or comes later, is answered no worse: admitted where the other is, with no less remaining
and no longer to wait. What a request finds is monotone in the credits and in the time, whatever doubles the
credits are, and what is answered is monotone in what is found. Where only the better one is admitted it is
charged a unit that the other one is not, but a denial reports nothing as remaining.

## Main definitions

* `Decision.NoBetter`: one decision is no better than another for who asked.
* `Bucket.NoBetterOff`: one standing is no better off than another.

## Main results

* `TokenBucket.available_mono`, `LeakyBucket.level_mono`: what is found.
* `TokenBucket.remaining_of_denied`, `LeakyBucket.remaining_of_denied`: a denial leaves nothing.
* `TokenBucket.noBetter`, `LeakyBucket.noBetter`: what is answered.
* `Bucket.noBetter_of_noBetterOff`: both together.
-/

namespace Admission

open Binary64

-- Powers of natural numbers are the core library's, whatever else is in scope.
attribute [local instance (high)] instPowNat

/-- The decision admits only where the other one does, with no more remaining and no shorter to wait. -/
structure Decision.NoBetter (d d' : Decision) : Prop where
  allowed : d.allowed = true → d'.allowed = true
  remaining : d.remaining ≤ d'.remaining
  retryAfter : d'.retryAfter.nanos ≤ d.retryAfter.nanos

/-- Who is admitted where another one is waits no longer, if it would wait no longer when denied. -/
theorem Duration.nanos_wait_le {admitted admitted' : Bool} {wait wait' : Duration}
    (more : admitted = true → admitted' = true) (shorter : wait'.nanos ≤ wait.nanos) :
    (if admitted' then zero else wait').nanos ≤ (if admitted then zero else wait).nanos := by
  cases admitted' with
  | true => exact Nat.zero_le _
  | false =>
    cases admitted with
    | true => exact absurd (more rfl) Bool.false_ne_true
    | false => exact shorter

variable {q : Quota} {s s' : Standing} {now now' : Instant}

/-! ### Token buckets -/

namespace TokenBucket

/-- More credits, and more that accrues, leave no fewer credits to be found. -/
theorem available_mono (more : s.credits ≤ s'.credits)
    (longer : accrual q (s.lastUpdate.since now) ≤ accrual q (s'.lastUpdate.since now')) :
    available q s now ≤ available q s' now' := by
  refine min_le_min_of_denotes ?_ q.denotes_ceiling
  exact add_le_add_of_small more (denotes_accrual q _) (denotes_accrual q _) (abs_accrual_lt q _)
    (abs_accrual_lt q _) longer

theorem admits_of_le (more : available q s now ≤ available q s' now') (allowed : admits q s now = true) :
    admits q s' now' = true := by
  have counted : available q s now + creditSlack ≤ available q s' now' + creditSlack :=
    add_le_add_of_small more denotes_creditSlack denotes_creditSlack abs_slack_lt abs_slack_lt le_rfl
  exact decide_eq_true (Binary64.le_trans (of_decide_eq_true allowed) counted)

/-- Where a request is denied there is not a whole credit. -/
theorem remaining_of_denied (denied : admits q s now = false) : (available q s now).floorClamped = 0 := by
  rcases found_cases q s now with ⟨a, found, -⟩ | none
  · have short := lt_of_denied found (by rw [decide_allowed, denied])
    exact found.floorClamped_eq_zero (by linarith [slack_pos])
  · rw [none]
    rfl

/-- Where more credits are found the wait is no longer. -/
theorem retryAfter_mono (more : available q s now ≤ available q s' now') :
    (retryAfter q s' now').nanos ≤ (retryAfter q s now).nanos := by
  rw [retryAfter, retryAfter]
  refine Duration.nanos_wait_le (admits_of_le more) (Duration.covering_mono ?_)
  exact div_le_div_of_pos (small_sub_le_small_sub denotes_ofNat_one abs_one_lt more) q.denotes_rate
    q.roundedRate_pos

/-- Where more credits are found the answer is no worse. -/
theorem noBetter (more : available q s now ≤ available q s' now') :
    (decide q s now).1.NoBetter (decide q s' now').1 ∧ (preview q s now).NoBetter (preview q s' now') := by
  have allowed : admits q s now = true → admits q s' now' = true := admits_of_le more
  have wait := retryAfter_mono more
  have kept : (left q s now).floorClamped ≤ (left q s' now').floorClamped := by
    rw [left, left]
    cases spent : admits q s now with
    | false =>
      rw [if_neg Bool.false_ne_true, remaining_of_denied spent]
      exact UInt64.zero_le
    | true =>
      rw [allowed spent, if_pos rfl, if_pos rfl]
      exact floorClamped_mono
        (sub_le_sub_of_small more denotes_ofNat_one denotes_ofNat_one abs_one_lt abs_one_lt le_rfl)
  constructor
  · exact ⟨by simpa using allowed, by simpa using kept, by simpa using wait⟩
  · exact ⟨by simpa using allowed, by simpa using floorClamped_mono more, by simpa using wait⟩

end TokenBucket

/-! ### Leaky buckets -/

namespace LeakyBucket

/-- A lower level, and more that drains, leave no higher level to be found. -/
theorem level_mono (less : s'.credits ≤ s.credits)
    (longer : accrual q (s.lastUpdate.since now) ≤ accrual q (s'.lastUpdate.since now')) :
    level q s' now' ≤ level q s now := by
  refine max_le_max_of_denotes ?_ denotes_ofNat_zero
  exact sub_le_sub_of_small less (denotes_accrual q _) (denotes_accrual q _) (abs_accrual_lt q _)
    (abs_accrual_lt q _) longer

theorem admits_of_le (less : level q s' now' ≤ level q s now) (allowed : admits q s now = true) :
    admits q s' now' = true := by
  have poured : level q s' now' + 1 ≤ level q s now + 1 :=
    add_le_add_of_small less denotes_ofNat_one denotes_ofNat_one abs_one_lt abs_one_lt le_rfl
  exact decide_eq_true (Binary64.le_trans poured (of_decide_eq_true allowed))

/-- Where a request is denied there is no room for a whole unit: what is rounded up to one fits up to the
slack. -/
theorem remaining_of_denied (denied : admits q s now = false) :
    (q.ceiling - level q s now).floorClamped = 0 := by
  rcases found_cases q s now with ⟨l, found, -⟩ | full
  · have room := q.denotes_ceiling.small_sub found q.abs_roundedBurst_lt
    refine room.floorClamped_eq_zero (not_le.1 fun whole => ?_)
    rw [← Nat.cast_one] at whole
    have nearly := le_add_half_of_le_rounded (e := 0) one_pos (by decide) whole
    rw [Nat.cast_one, pow_zero] at nearly
    have slackLow := one_div_le_slack
    have fits : rounded (l + 1) ≤ rounded (q.roundedBurst + slack) := rounded_mono (by linarith)
    rw [← Bool.not_eq_true, ← decide_allowed, (decide_spec_of_denotes q now found).1] at denied
    exact denied fits
  · rw [full, q.denotes_ceiling.sub_infinity]
    rfl

/-- Where a lower level is found the wait is no longer. -/
theorem retryAfter_mono (less : level q s' now' ≤ level q s now) :
    (retryAfter q s' now').nanos ≤ (retryAfter q s now).nanos := by
  rw [retryAfter, retryAfter]
  exact Duration.nanos_wait_le (admits_of_le less) le_rfl

/-- Where a lower level is found the answer is no worse. -/
theorem noBetter (less : level q s' now' ≤ level q s now) :
    (decide q s now).1.NoBetter (decide q s' now').1 ∧ (preview q s now).NoBetter (preview q s' now') := by
  have allowed : admits q s now = true → admits q s' now' = true := admits_of_le less
  have wait := retryAfter_mono less
  have room {x y : Binary64} (order : x ≤ y) :
      (q.ceiling - y).floorClamped ≤ (q.ceiling - x).floorClamped :=
    floorClamped_mono (small_sub_le_small_sub q.denotes_ceiling q.abs_roundedBurst_lt order)
  have kept : (q.ceiling - filled q s now).floorClamped ≤ (q.ceiling - filled q s' now').floorClamped := by
    rw [filled, filled]
    cases poured : admits q s now with
    | false =>
      rw [if_neg Bool.false_ne_true, remaining_of_denied poured]
      exact UInt64.zero_le
    | true =>
      rw [allowed poured, if_pos rfl, if_pos rfl]
      exact room (add_le_add_of_small less denotes_ofNat_one denotes_ofNat_one abs_one_lt abs_one_lt le_rfl)
  constructor
  · exact ⟨by simpa using allowed, by simpa using kept, by simpa using wait⟩
  · exact ⟨by simpa using allowed, by simpa using room less, by simpa using wait⟩

end LeakyBucket

/-! ### Both buckets -/

namespace Bucket

/-- A later preview of the same standing does not count fewer. -/
theorem preview_remaining_mono (b : Bucket) (number : s.credits.isNaN = false) (later : now.nanos ≤ now'.nanos) :
    (b.preview s now).remaining ≤ (b.preview s now').remaining := by
  have same := le_self number
  have longer : accrual b.quota (s.lastUpdate.since now) ≤ accrual b.quota (s.lastUpdate.since now') :=
    accrual_mono (Int.toNat_le_toNat (Int.sub_le_sub_right later _))
  rcases b with ⟨_ | _, q⟩
  · exact (TokenBucket.noBetter (TokenBucket.available_mono same longer)).2.remaining
  · exact (LeakyBucket.noBetter (LeakyBucket.level_mono same longer)).2.remaining

/-- The standing has no more credit than the other one, or no lower a level, and was brought up to date no
earlier. -/
structure NoBetterOff (b : Bucket) (s s' : Standing) : Prop where
  credits :
    match b.algorithm with
    | .tokenBucket => s.credits ≤ s'.credits
    | .leakyBucket => s'.credits ≤ s.credits
  lastUpdate : s'.lastUpdate.nanos ≤ s.lastUpdate.nanos

/-- More credit or more time never hurts: who is no better off, and comes no later, is answered no better, by
a decision as by a preview. -/
theorem noBetter_of_noBetterOff (b : Bucket) (worse : b.NoBetterOff s s') (later : now.nanos ≤ now'.nanos) :
    (b.decide s now).1.NoBetter (b.decide s' now').1 ∧
      (b.preview s now).NoBetter (b.preview s' now') := by
  have longer : accrual b.quota (s.lastUpdate.since now) ≤ accrual b.quota (s'.lastUpdate.since now') :=
    accrual_mono (Int.toNat_le_toNat (Int.sub_le_sub later worse.lastUpdate))
  rcases b with ⟨_ | _, q⟩
  · exact TokenBucket.noBetter (TokenBucket.available_mono worse.credits longer)
  · exact LeakyBucket.noBetter (LeakyBucket.level_mono worse.credits longer)

/-- A level that is infinite and one that is full are both denied now. A third of a second later, rounded up
to whole nanoseconds, the full one is admitted. -/
theorem noBetter_of_noBetterOff_endless :
    onePerThird.NoBetterOff (.fresh (.infinity false) .epoch) (.fresh 1 .epoch) ∧
      Instant.epoch.nanos ≤ (333333334 : ℤ) ∧
      (onePerThird.decide (.fresh (.infinity false) .epoch) .epoch).1.allowed = false ∧
      (onePerThird.decide (.fresh 1 .epoch) ⟨333333334, by decide, by decide⟩).1.allowed = true ∧
      (onePerThird.decide (.fresh (.infinity false) .epoch) .epoch).1.NoBetter
        (onePerThird.decide (.fresh 1 .epoch) ⟨333333334, by decide, by decide⟩).1 := by
  have worse : onePerThird.NoBetterOff (.fresh (.infinity false) .epoch) (.fresh 1 .epoch) := by
    refine ⟨?_, Int.le_refl _⟩
    change (1 : Binary64) ≤ .infinity false
    decide +kernel
  have later : Instant.epoch.nanos ≤ Instant.nanos ⟨333333334, by decide, by decide⟩ := by decide
  have answered := noBetter_of_noBetterOff onePerThird worse later
  exact ⟨worse, later, by decide +kernel, by decide +kernel, answered.1⟩

end Bucket

end Admission
