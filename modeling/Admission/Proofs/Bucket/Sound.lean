import Admission.Proofs.Bucket.Finite
import Admission.Proofs.Bucket.Rehearsal
import Admission.Proofs.Bucket.Retry

/-!
# Decisions on standings that nobody checked

A standing comes back from a store as it was written there, with credits that may be any double and a last
update at any instant. What is decided on it makes sense all the same, and what is kept after the decision is
within the bounds of the bucket again.

## Main definitions

* `Decision.Sound`: what a decision under a quota keeps to.
* `Bucket.Bounded`: the credits are a number on the right side of the bound that the bucket clamps to.

## Main results

* `Quota.rate_sound`: a rate is a positive finite double.
* `covering_div_rate_ne_zero`: what takes more than the slack takes some time.
* `TokenBucket.preview_sound`, `LeakyBucket.preview_sound`, `Bucket.preview_sound`: what is decided.
* `Bucket.sound`: what is decided, and what is kept.
-/

namespace Admission

open Binary64

-- Powers of natural numbers are the core library's, whatever else is in scope.
attribute [local instance (high)] instPowNat

/-- The decision makes sense under a quota, at an instant: there is no wait exactly if it admits, nothing is
admitted without a burst, the bucket is at rest no earlier than now, and no more remains than a burst that
can be counted. -/
structure Decision.Sound (d : Decision) (q : Quota) (now : Instant) : Prop where
  retryAfter : d.retryAfter = Duration.zero ↔ d.allowed = true
  burst : d.allowed = true → 1 ≤ q.burst
  resetTime : now.nanos ≤ d.resetTime.nanos
  remaining : q.burst.toNat < 2 ^ (53 : ℕ) → d.remaining ≤ q.burst

variable {q : Quota} {s : Standing} {now : Instant}

/-- A decision that agrees with one that makes sense does so, too, if no more remains than the burst. -/
theorem Decision.Sound.of_agrees {d d' : Decision} (h : d.Sound q now) (agrees : d.Agrees d')
    (remaining : q.burst.toNat < 2 ^ (53 : ℕ) → d'.remaining ≤ q.burst) : d'.Sound q now where
  retryAfter := by
    rw [← agrees.retryAfter, ← agrees.allowed]
    exact h.retryAfter
  burst := by
    rw [← agrees.allowed]
    exact h.burst
  resetTime := by
    rw [← agrees.resetTime]
    exact h.resetTime
  remaining := remaining

namespace Quota

/-- A rate is a positive finite double. -/
theorem rate_sound (q : Quota) : q.rate.isFinite = true ∧ 0 < q.rate :=
  ⟨q.denotes_rate.isFinite, (denotes_ofNat_zero.lt_iff q.denotes_rate).2 q.roundedRate_pos⟩

theorem one_le_burst (some : q.burst ≠ 0) : 1 ≤ q.burst := by
  rw [UInt64.le_iff_toNat_le]
  exact Nat.one_le_iff_ne_zero.2 fun none => some (UInt64.toNat_inj.1 none)

theorem ceiling_sub_one_le (q : Quota) : q.ceiling - 1 ≤ q.ceiling := by
  rw [(q.denotes_ceiling.sub_of_small denotes_ofNat_one abs_one_lt).le_iff q.denotes_ceiling]
  exact (rounded_mono (sub_le_self _ zero_le_one)).trans_eq q.denotes_ceiling.rounded_eq

/-- What is taken from the burst leaves no more than the burst. -/
theorem ceiling_sub_le (q : Quota) {x : Binary64} (h : 0 ≤ x) : q.ceiling - x ≤ q.ceiling := by
  refine Binary64.le_trans (small_sub_le_small_sub q.denotes_ceiling q.abs_roundedBurst_lt h) ?_
  rw [(q.denotes_ceiling.small_sub denotes_ofNat_zero q.abs_roundedBurst_lt).le_iff q.denotes_ceiling, sub_zero,
    q.denotes_ceiling.rounded_eq]

/-- The whole part of a double up to the burst is no more than the burst. -/
theorem floorClamped_le_burst (small : q.burst.toNat < 2 ^ (53 : ℕ)) {x : Binary64} (h : x ≤ q.ceiling) :
    x.floorClamped ≤ q.burst := by
  refine UInt64.le_trans (floorClamped_mono h) ?_
  rw [UInt64.le_iff_toNat_le]
  exact q.denotes_ceiling.floorClamped_le (roundedBurst_eq small).le

/-- The whole part of a double up to the burst less one is less than the burst. -/
theorem floorClamped_lt_burst (small : q.burst.toNat < 2 ^ (53 : ℕ)) (some : q.burst ≠ 0) {x : Binary64}
    (h : x ≤ q.ceiling - 1) : x.floorClamped < q.burst := by
  have one : 0 < q.burst.toNat := UInt64.le_iff_toNat_le.1 (one_le_burst some)
  have less := q.denotes_ceiling.sub_of_small denotes_ofNat_one abs_one_lt
  rw [roundedBurst_eq small, ← Nat.cast_pred one, rounded_natCast (by omega)] at less
  refine UInt64.lt_of_le_of_lt (floorClamped_mono h) ?_
  rw [UInt64.lt_iff_toNat_lt]
  exact (less.floorClamped_le le_rfl).trans_lt (Nat.pred_lt one.ne')

end Quota

/-- To wait for more than the slack takes some time. -/
theorem covering_div_rate_ne_zero (q : Quota) {y : Binary64} (more : creditSlack ≤ y) :
    Duration.covering (y / q.rate) ≠ Duration.zero := by
  have low : 1 / 2 ^ 53 ≤ slack := le_trans (by norm_num) one_div_le_slack
  have high : slack ≤ 2 ^ 65 := slack_le.trans (by norm_num)
  have some := Duration.covering_ne_zero (denotes_div_rate (q := q) denotes_creditSlack low high)
    (rounded_div_roundedRate_pos low high)
  have longer := Duration.covering_mono (div_le_div_of_pos more q.denotes_rate q.roundedRate_pos)
  intro none
  rw [none] at longer
  exact some (Duration.nanos_eq_zero.1 (Nat.le_zero.1 longer))

/-- There is no wait exactly for who is admitted, if a denial takes some time. -/
theorem Duration.wait_eq_zero_iff {admitted : Bool} {wait : Duration} (some : admitted = false → wait ≠ zero) :
    (if admitted then zero else wait) = zero ↔ admitted = true := by
  cases admitted with
  | true => exact iff_of_true rfl rfl
  | false => exact iff_of_false (some rfl) Bool.false_ne_true

/-! ### Token buckets -/

namespace TokenBucket

/-- No more is found than the burst. -/
theorem available_le_ceiling (q : Quota) (s : Standing) (now : Instant) :
    available q s now ≤ q.ceiling := q.denotes_ceiling.min_le _

/-- A denial is short of one credit by more than the slack. -/
theorem creditSlack_le_of_not_admits (denied : admits q s now = false) :
    creditSlack ≤ 1 - available q s now := by
  rcases found_cases q s now with ⟨a, found, -⟩ | none
  · have short := lt_of_denied found (by rwa [decide_allowed])
    rw [denotes_creditSlack.le_iff (denotes_ofNat_one.small_sub found abs_one_lt),
      ← denotes_creditSlack.rounded_eq]
    exact rounded_mono (by linarith)
  · rw [none, denotes_ofNat_one.sub_infinity]
    exact le_infinity_false denotes_creditSlack.isNaN

theorem retryAfter_eq_zero_iff : retryAfter q s now = Duration.zero ↔ admits q s now = true :=
  Duration.wait_eq_zero_iff fun denied => covering_div_rate_ne_zero q (creditSlack_le_of_not_admits denied)

theorem left_le_ceiling (q : Quota) (s : Standing) (now : Instant) : left q s now ≤ q.ceiling := by
  have found := available_le_ceiling q s now
  rw [left]
  split
  · refine Binary64.le_trans ?_ q.ceiling_sub_one_le
    exact sub_le_sub_of_small found denotes_ofNat_one denotes_ofNat_one abs_one_lt abs_one_lt le_rfl
  · exact found

theorem preview_sound (q : Quota) (s : Standing) (now : Instant) : (preview q s now).Sound q now where
  retryAfter := by
    rw [preview_retryAfter, preview_allowed]
    exact retryAfter_eq_zero_iff
  burst := by
    rw [preview_allowed, ← decide_allowed]
    exact fun allowed => Quota.one_le_burst (burst_ne_zero_of_allowed allowed)
  resetTime := now.le_offset _
  remaining small := by
    rw [preview_remaining]
    exact Quota.floorClamped_le_burst small (available_le_ceiling q s now)

theorem decide_sound (q : Quota) (s : Standing) (now : Instant) : (decide q s now).1.Sound q now := by
  refine (preview_sound q s now).of_agrees (preview_agrees q s now) fun small => ?_
  rw [decide_remaining]
  exact Quota.floorClamped_le_burst small (left_le_ceiling q s now)

/-- One credit of the burst is spent by an admission. -/
theorem remaining_lt_burst (small : q.burst.toNat < 2 ^ (53 : ℕ)) (allowed : (decide q s now).1.allowed = true) :
    (decide q s now).1.remaining < q.burst := by
  have some := burst_ne_zero_of_allowed allowed
  rw [decide_allowed] at allowed
  have rest : available q s now - 1 ≤ q.ceiling - 1 :=
    sub_le_sub_of_small (available_le_ceiling q s now) denotes_ofNat_one denotes_ofNat_one abs_one_lt abs_one_lt
      le_rfl
  rw [decide_remaining, left, if_pos allowed]
  exact Quota.floorClamped_lt_burst small some rest

end TokenBucket

/-! ### Leaky buckets -/

namespace LeakyBucket

/-- No level below zero is found. -/
theorem zero_le_level (q : Quota) (s : Standing) (now : Instant) : 0 ≤ level q s now :=
  denotes_ofNat_zero.le_max _

/-- After a unit there is one unit at least. -/
theorem one_le_level_add_one (q : Quota) (s : Standing) (now : Instant) : 1 ≤ level q s now + 1 := by
  have sum : 1 ≤ (0 : Binary64) + 1 := by decide +kernel
  exact Binary64.le_trans sum <|
    add_le_add_of_small (zero_le_level q s now) denotes_ofNat_one denotes_ofNat_one abs_one_lt abs_one_lt le_rfl

theorem zero_le_filled (q : Quota) (s : Standing) (now : Instant) : 0 ≤ filled q s now := by
  rw [filled]
  split
  · refine Binary64.le_trans ?_ (one_le_level_add_one q s now)
    exact (denotes_ofNat_zero.le_iff denotes_ofNat_one).2 zero_le_one
  · exact zero_le_level q s now

theorem retryAfter_eq_zero_iff : retryAfter q s now = Duration.zero ↔ admits q s now = true :=
  Duration.wait_eq_zero_iff fun _ => covering_div_rate_ne_zero q <|
    (denotes_creditSlack.le_iff denotes_ofNat_one).2 (slack_le.trans (by norm_num))

theorem preview_sound (q : Quota) (s : Standing) (now : Instant) : (preview q s now).Sound q now where
  retryAfter := by
    rw [preview_retryAfter, preview_allowed]
    exact retryAfter_eq_zero_iff
  burst := by
    rw [preview_allowed, ← decide_allowed]
    exact fun allowed => Quota.one_le_burst (burst_ne_zero_of_allowed allowed)
  resetTime := now.le_offset _
  remaining small := by
    rw [preview_remaining]
    exact Quota.floorClamped_le_burst small (q.ceiling_sub_le (zero_le_level q s now))

theorem decide_sound (q : Quota) (s : Standing) (now : Instant) : (decide q s now).1.Sound q now := by
  refine (preview_sound q s now).of_agrees (preview_agrees q s now) fun small => ?_
  rw [decide_remaining]
  exact Quota.floorClamped_le_burst small (q.ceiling_sub_le (zero_le_filled q s now))

/-- One unit of the burst is poured by an admission. -/
theorem remaining_lt_burst (small : q.burst.toNat < 2 ^ (53 : ℕ)) (allowed : (decide q s now).1.allowed = true) :
    (decide q s now).1.remaining < q.burst := by
  have some := burst_ne_zero_of_allowed allowed
  rw [decide_allowed] at allowed
  have room : q.ceiling - (level q s now + 1) ≤ q.ceiling - 1 :=
    small_sub_le_small_sub q.denotes_ceiling q.abs_roundedBurst_lt (one_le_level_add_one q s now)
  rw [decide_remaining, filled, if_pos allowed]
  exact Quota.floorClamped_lt_burst small some room

end LeakyBucket

/-! ### Both buckets -/

namespace Bucket

/-- The credits are a number that does not exceed the burst, or a level that is not below zero. -/
structure Bounded (b : Bucket) (s : Standing) : Prop where
  number : s.credits.isNaN = false
  credits :
    match b.algorithm with
    | .tokenBucket => s.credits ≤ b.quota.ceiling
    | .leakyBucket => 0 ≤ s.credits

variable (b : Bucket) (s : Standing) (now : Instant)

theorem preview_sound : (b.preview s now).Sound b.quota now := by
  rcases b with ⟨_ | _, q⟩
  · exact TokenBucket.preview_sound q s now
  · exact LeakyBucket.preview_sound q s now

theorem decide_sound : (b.decide s now).1.Sound b.quota now := by
  rcases b with ⟨_ | _, q⟩
  · exact TokenBucket.decide_sound q s now
  · exact LeakyBucket.decide_sound q s now

theorem remaining_lt_burst (small : b.quota.burst.toNat < 2 ^ (53 : ℕ))
    (allowed : (b.decide s now).1.allowed = true) : (b.decide s now).1.remaining < b.quota.burst := by
  rcases b with ⟨_ | _, q⟩
  · exact TokenBucket.remaining_lt_burst small allowed
  · exact LeakyBucket.remaining_lt_burst small allowed

/-- Whatever was kept, what is kept next is bounded. -/
theorem decide_bounded : b.Bounded (b.decide s now).2 := by
  rcases b with ⟨_ | _, q⟩
  · have bound : (TokenBucket.decide q s now).2.credits ≤ q.ceiling := by
      rw [TokenBucket.decide_credits]
      exact TokenBucket.left_le_ceiling q s now
    exact ⟨isNaN_left_of_le bound, bound⟩
  · have bound : 0 ≤ (LeakyBucket.decide q s now).2.credits := by
      rw [LeakyBucket.decide_credits]
      exact LeakyBucket.zero_le_filled q s now
    exact ⟨isNaN_right_of_le bound, bound⟩

/-- Whatever the credits and the instants of a standing are: the rate is a positive finite double, decision
and preview make sense, an admission leaves less than a burst that can be counted, and the standing to keep
is bounded, with finite credits if they were finite before. -/
theorem sound (b : Bucket) (s : Standing) (now : Instant) :
    (b.quota.rate.isFinite = true ∧ 0 < b.quota.rate) ∧
      (b.decide s now).1.Sound b.quota now ∧ (b.preview s now).Sound b.quota now ∧
      (b.quota.burst.toNat < 2 ^ (53 : ℕ) → (b.decide s now).1.allowed = true →
        (b.decide s now).1.remaining < b.quota.burst) ∧
      b.Bounded (b.decide s now).2 ∧
      (s.credits.isFinite = true → (b.decide s now).2.credits.isFinite = true) :=
  ⟨b.quota.rate_sound, b.decide_sound s now, b.preview_sound s now, b.remaining_lt_burst s now,
    b.decide_bounded s now, b.decide_isFinite now⟩

/-- A level that is no number, brought up to date a second from now. -/
def garbled : Standing := .fresh .nan .second

/-- On such a level a unit is admitted, nothing remains of a burst of one, and the level is one afterwards. -/
theorem sound_garbled :
    onePerThird.quota.burst.toNat < 2 ^ (53 : ℕ) ∧
      (onePerThird.decide garbled .epoch).1.allowed = true ∧
      (onePerThird.decide garbled .epoch).1.remaining < onePerThird.quota.burst ∧
      onePerThird.Bounded (onePerThird.decide garbled .epoch).2 ∧
      (onePerThird.decide garbled .epoch).2.credits = 1 := by
  have small : onePerThird.quota.burst.toNat < 2 ^ (53 : ℕ) := by decide
  have allowed : (onePerThird.decide garbled .epoch).1.allowed = true := by decide +kernel
  obtain ⟨-, -, -, less, bounded, -⟩ := sound onePerThird garbled .epoch
  exact ⟨small, allowed, less small allowed, bounded, by decide +kernel⟩

end Bucket

end Admission
