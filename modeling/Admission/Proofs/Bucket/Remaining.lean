import Admission.Proofs.Binary64.Ties
import Admission.Proofs.Bucket.Repeated

/-!
# What a decision reports as remaining

The number of whole credits that a decision reports is the number of requests that are then admitted at the
same instant, give or take the one on which the slack decides.

For a leaky bucket the number is read off a difference that is rounded, while the requests add to the level
one unit at a time, each rounded again. What fits only after rounding fits all the same: it exceeds the
burst by at most half a step at the size of the number reported, and that half step is rounded away when
the level comes to this size.

## Main definitions

* `Bucket.GoodFor`: what a number of remaining credits promises.

## Main results

* `TokenBucket.admitted_again_eq`, `LeakyBucket.admitted_again_eq`: the requests that are admitted.
* `Bucket.remaining_again`: a decision reports what a preview right after it reports.
* `Bucket.goodFor_remaining`: the promise is kept after a decision and after a preview.
-/

namespace Admission

open Binary64

-- Powers of natural numbers are the core library's, whatever else is in scope.
attribute [local instance (high)] instPowNat

variable {q : Quota} {s : Standing} {now : Instant}

/-! ### Token buckets -/

namespace TokenBucket

variable {a : ℚ}

/-- At one instant as many requests are admitted in a row as whole credits are found. -/
theorem admitted_again_eq {k : ℕ} (found : Denotes (available q s now) a) (stock : k ≤ a)
    (few : k ≤ 2 ^ (53 : ℕ)) :
    Bucket.admitted ⟨.tokenBucket, q⟩ s (List.replicate k now) = k := by
  refine Bucket.admitted_again_eq_of_step
    (fun k s => k ≤ 2 ^ (53 : ℕ) ∧ ∃ a, Denotes (available q s now) a ∧ k ≤ a)
    ⟨few, a, found, stock⟩ ?_
  rintro k s ⟨few, a, found, stock⟩
  rw [Nat.cast_succ] at stock
  obtain ⟨allowed, again⟩ := spent_again found (by linarith [(k.cast_nonneg : (0 : ℚ) ≤ k)])
  refine ⟨allowed, by omega, _, again, ?_⟩
  rw [← rounded_natCast (n := k) (by omega)]
  exact rounded_mono (by linarith)

end TokenBucket

/-! ### Leaky buckets -/

namespace LeakyBucket

variable {l : ℚ}

/-- Some more units fit above a level: as whole numbers, or but for half a step that is still to be rounded
away. -/
def Stock (q : Quota) (now : Instant) (e k : ℕ) (s : Standing) : Prop :=
  ∃ l, Denotes (level q s now) l ∧ k ≤ q.burst.toNat ∧
    (l + k ≤ q.burst.toNat ∨
      2 * (q.burst.toNat - k) < 2 ^ e ∧ l + k ≤ q.burst.toNat + 2 ^ e / 2 ^ 54)

variable {e k : ℕ}

/-- A unit poured to a level that leaves room for whole units leaves these. -/
theorem Stock.pour_whole (small : q.burst.toNat < 2 ^ (53 : ℕ)) (found : Denotes (level q s now) l)
    (part : k ≤ q.burst.toNat) (whole : rounded (l + 1) + k ≤ q.burst.toNat) :
    (decide q s now).1.allowed = true ∧ Stock q now e k (decide q s now).2 := by
  have fits : rounded (l + 1) ≤ q.roundedBurst := by
    rw [Quota.roundedBurst_eq small]
    linarith [(k.cast_nonneg : (0 : ℚ) ≤ k)]
  obtain ⟨allowed, again⟩ := poured_again found fits
  exact ⟨allowed, _, again, part, .inl whole⟩

/-- A unit poured to a level that leaves room but for half a step is let in as long as another one is to follow:
half a step is less than that one. -/
theorem Stock.pour_nearly (small : q.burst.toNat < 2 ^ (53 : ℕ)) (few : e ≤ 53) (some : 0 < k)
    (found : Denotes (level q s now) l) (part : k ≤ q.burst.toNat) (below : 2 * (q.burst.toNat - k) < 2 ^ e)
    (nearly : rounded (l + 1) + k ≤ q.burst.toNat + 2 ^ e / 2 ^ 54) :
    (decide q s now).1.allowed = true ∧ Stock q now e k (decide q s now).2 := by
  have half : (2 : ℚ) ^ e / 2 ^ 54 ≤ 1 := by
    rw [div_le_one (by positivity)]
    exact pow_le_pow_right₀ one_le_two (by omega)
  have another : (1 : ℚ) ≤ k := by exact_mod_cast some
  have fits : rounded (l + 1) ≤ q.roundedBurst := by
    rw [Quota.roundedBurst_eq small]
    linarith
  obtain ⟨allowed, again⟩ := poured_again found fits
  exact ⟨allowed, _, again, part, .inr ⟨below, nearly⟩⟩

/-- Pouring one of these units leaves the others. -/
theorem Stock.pour (small : q.burst.toNat < 2 ^ (53 : ℕ)) (few : e ≤ 53) (reach : 2 ^ e ≤ 2 * q.burst.toNat)
    (h : Stock q now e (k + 1) s) :
    (decide q s now).1.allowed = true ∧ Stock q now e k (decide q s now).2 := by
  obtain ⟨l, found, part, fits⟩ := h
  have rest : k ≤ q.burst.toNat := by omega
  obtain ⟨m, hm⟩ : ∃ m, m + k = q.burst.toNat := ⟨_, Nat.sub_add_cancel rest⟩
  have burst : (q.burst.toNat : ℚ) = m + k := by exact_mod_cast hm.symm
  have before : q.burst.toNat - (k + 1) = m - 1 := by omega
  have after : q.burst.toNat - k = m := by omega
  rw [before, Nat.cast_succ, burst] at fits
  -- Poured onto a whole number of units, the level stays on whole numbers.
  have settle (whole : rounded (l + 1) ≤ m) :
      (decide q s now).1.allowed = true ∧ Stock q now e k (decide q s now).2 :=
    Stock.pour_whole small found rest (by rw [burst]; linarith)
  rcases fits with whole | ⟨below, nearly⟩
  · refine settle ?_
    rw [← rounded_natCast (n := m) (by omega)]
    exact rounded_mono (by linarith)
  · have poured : rounded (l + 1) ≤ rounded ((m : ℚ) + 2 ^ e / 2 ^ 54) := rounded_mono (by linarith)
    rcases Nat.lt_or_ge (2 * m) (2 ^ e) with still | reached
    · rw [rounded_add_half still few] at poured
      exact Stock.pour_nearly small few (by omega) found rest (by rwa [after]) (by rw [burst]; linarith)
    · -- The level comes to the size at which the half step is a tie, with an even number below it.
      have even : e ≤ 52 ∨ e = 53 ∧ 2 ∣ m := by
        rcases Nat.lt_or_eq_of_le few with coarse | rfl
        · exact .inl (Nat.le_of_lt_succ coarse)
        · exact .inr ⟨rfl, by omega⟩
      rw [rounded_add_half_of_le reached (by omega) even] at poured
      exact settle poured

/-- At one instant as many requests are admitted in a row as units fit under the burst, even if they fit only
after rounding. -/
theorem admitted_again_eq (small : q.burst.toNat < 2 ^ (53 : ℕ)) (some : 0 < k)
    (found : Denotes (level q s now) l) (stock : k ≤ rounded (q.burst.toNat - l)) :
    Bucket.admitted ⟨.leakyBucket, q⟩ s (List.replicate k now) = k := by
  have low := nonneg_of_found found
  have part : k ≤ q.burst.toNat := by
    have : (k : ℚ) ≤ q.burst.toNat :=
      stock.trans ((rounded_mono (sub_le_self _ low)).trans_eq (rounded_natCast small.le))
    exact_mod_cast this
  obtain ⟨e, size, below⟩ : ∃ e, k ≤ 2 ^ e ∧ 2 ^ e < 2 * k := by
    have above := Nat.lt_log2_self (n := 2 * k - 1)
    have self := Nat.log2_self_le (show 2 * k - 1 ≠ 0 by omega)
    rw [Nat.pow_succ] at above
    exact ⟨(2 * k - 1).log2, by omega, by omega⟩
  have few : e ≤ 53 := by
    have : 2 ^ e < 2 ^ (54 : ℕ) := by omega
    exact Nat.le_of_lt_succ ((Nat.pow_lt_pow_iff_right Nat.one_lt_two).1 this)
  have nearly := le_add_half_of_le_rounded some size stock
  refine Bucket.admitted_again_eq_of_step (Stock q now e) (k := k) ⟨l, found, part, ?_⟩
    fun k s => Stock.pour small few (by omega)
  rcases Nat.lt_or_ge (2 * (q.burst.toNat - k)) (2 ^ e) with still | reached
  · exact .inr ⟨still, by linarith⟩
  · -- The level is of that size already, where no double lies half a step above a whole number.
    have even : e ≤ 52 ∨ e = 53 ∧ 2 ∣ q.burst.toNat - k := by
      rcases Nat.lt_or_eq_of_le few with coarse | rfl
      · exact .inl (Nat.le_of_lt_succ coarse)
      · omega
    have top : rounded l ≤ rounded (((q.burst.toNat - k : ℕ) : ℚ) + 2 ^ e / 2 ^ 54) := by
      refine rounded_mono ?_
      rw [Nat.cast_sub part]
      linarith
    rw [found.rounded_eq, rounded_add_half_of_le reached (by omega) even, Nat.cast_sub part] at top
    exact .inl (by linarith)

end LeakyBucket

/-! ### What is reported -/

namespace TokenBucket

/-- The credits that a decision reports are those that a preview right after it reports. -/
theorem remaining_again (q : Quota) (s : Standing) (now : Instant) :
    (preview q (decide q s now).2 now).remaining = (decide q s now).1.remaining := by
  rw [preview_remaining, decide_remaining]
  rcases found_cases q s now with ⟨a, found, -⟩ | none
  · have kept := (decide_spec_of_denotes q now found).2
    rw [decide_credits] at kept
    exact (found_again found).floorClamped_eq kept
  · obtain ⟨denied, again⟩ := denied_of_infinity none
    rw [decide_allowed] at denied
    rw [again, left, denied, if_neg Bool.false_ne_true, none]

end TokenBucket

namespace LeakyBucket

/-- The room that a decision reports is what a preview right after it reports. -/
theorem remaining_again (q : Quota) (s : Standing) (now : Instant) :
    (preview q (decide q s now).2 now).remaining = (decide q s now).1.remaining := by
  rw [preview_remaining, decide_remaining]
  rcases found_cases q s now with ⟨l, found, -⟩ | full
  · have kept := (decide_spec_of_denotes q now found).2
    rw [decide_credits] at kept
    exact (q.denotes_ceiling.small_sub (found_again found) q.abs_roundedBurst_lt).floorClamped_eq
      (q.denotes_ceiling.small_sub kept q.abs_roundedBurst_lt)
  · obtain ⟨denied, again⟩ := denied_of_infinity full
    rw [decide_allowed] at denied
    rw [again, filled, denied, if_neg Bool.false_ne_true, full]

end LeakyBucket

namespace Bucket

variable {b : Bucket}

/-- The standing is good for a number of requests: of any that come at this instant, so many are admitted
first, and at most one of the others. -/
def GoodFor (b : Bucket) (s : Standing) (now : Instant) (r : ℕ) : Prop :=
  ∀ n, (∀ outcome ∈ (b.run s (List.replicate n now)).take r, outcome.1.allowed = true) ∧
    b.admitted s (List.replicate n now) ≤ r + 1

theorem run_take (b : Bucket) (s : Standing) (times : List Instant) (r : ℕ) :
    (b.run s times).take r = b.run s (times.take r) := by
  induction times generalizing s r with
  | nil => simp [run]
  | cons now later ih =>
    cases r with
    | zero => rfl
    | succ r => rw [run, List.take_succ_cons, List.take_succ_cons, run, ih]

/-- It is enough that a row of so many is admitted throughout, and that no row has more than one admitted
beyond. -/
theorem goodFor_of_admitted {r : ℕ} (all : b.admitted s (List.replicate r now) = r)
    (most : ∀ n, b.admitted s (List.replicate n now) ≤ r + 1) : b.GoodFor s now r := by
  intro n
  refine ⟨fun outcome member => ?_, most n⟩
  have row : ∀ outcome ∈ b.run s (List.replicate r now), outcome.1.allowed = true := by
    rw [← List.countP_eq_length, ← admitted, all, length_run, List.length_replicate]
  rw [run_take, List.take_replicate, Nat.min_comm, ← List.take_replicate, ← run_take] at member
  exact row outcome (List.mem_of_mem_take member)

/-- A standing that is denied is good for nothing. -/
theorem goodFor_zero_of_denied (denied : (b.decide s now).1.allowed = false) : b.GoodFor s now 0 :=
  goodFor_of_admitted rfl fun n => (admitted_again_of_denied denied n).le.trans (Nat.zero_le _)

end Bucket

theorem TokenBucket.goodFor_preview (small : q.burst.toNat < 2 ^ (53 : ℕ)) (s : Standing) (now : Instant) :
    Bucket.GoodFor ⟨.tokenBucket, q⟩ s now (preview q s now).remaining.toNat := by
  rw [preview_remaining]
  rcases found_cases q s now with ⟨a, found, high⟩ | none
  · rw [Quota.roundedBurst_eq small] at high
    have few := (found.floorClamped_le high).trans_lt small
    have counted {k : ℕ} (some : 0 < k) (few : k ≤ 2 ^ (53 : ℕ)) :=
      found.le_floorClamped_iff some (k := k) (few.trans_lt (by decide))
    generalize (available q s now).floorClamped.toNat = r at few counted
    refine Bucket.goodFor_of_admitted ?_ fun n => ?_
    · rcases Nat.eq_zero_or_pos r with rfl | some
      · rfl
      · exact admitted_again_eq found ((counted some few.le).1 le_rfl) few.le
    · refine admitted_again_le found ?_ few n
      by_contra more
      exact absurd ((counted r.succ_pos few).2 (not_le.1 more).le) (Nat.not_succ_le_self r)
  · rw [none]
    exact Bucket.goodFor_zero_of_denied (denied_of_infinity none).1

theorem LeakyBucket.goodFor_preview (small : q.burst.toNat < 2 ^ (53 : ℕ)) (s : Standing) (now : Instant) :
    Bucket.GoodFor ⟨.leakyBucket, q⟩ s now (preview q s now).remaining.toNat := by
  rw [preview_remaining]
  rcases found_cases q s now with ⟨l, found, low⟩ | full
  · have room := q.denotes_ceiling.small_sub found q.abs_roundedBurst_lt
    rw [Quota.roundedBurst_eq small] at room
    have high : rounded (q.burst.toNat - l) ≤ q.burst.toNat :=
      (rounded_mono (sub_le_self _ low)).trans_eq (rounded_natCast small.le)
    have few := (room.floorClamped_le high).trans_lt small
    have counted {k : ℕ} (some : 0 < k) (few : k ≤ 2 ^ (53 : ℕ)) :=
      room.le_floorClamped_iff some (k := k) (few.trans_lt (by decide))
    generalize (q.ceiling - level q s now).floorClamped.toNat = r at few counted
    refine Bucket.goodFor_of_admitted ?_ fun n => ?_
    · rcases Nat.eq_zero_or_pos r with rfl | some
      · rfl
      · exact admitted_again_eq small some found ((counted some few.le).1 le_rfl)
    · refine admitted_again_le small found ?_ n
      by_contra more
      have whole : ((r + 1 : ℕ) : ℚ) ≤ q.burst.toNat - l := by linarith
      have fits := rounded_mono whole
      rw [rounded_natCast few] at fits
      exact absurd ((counted r.succ_pos few).2 fits) (Nat.not_succ_le_self r)
  · rw [full, q.denotes_ceiling.sub_infinity]
    exact Bucket.goodFor_zero_of_denied (denied_of_infinity full).1

namespace Bucket

/-- A decision reports what a preview right after it reports. -/
theorem remaining_again (b : Bucket) (s : Standing) (now : Instant) :
    (b.preview (b.decide s now).2 now).remaining = (b.decide s now).1.remaining := by
  rcases b with ⟨_ | _, q⟩
  · exact TokenBucket.remaining_again q s now
  · exact LeakyBucket.remaining_again q s now

/-- After a decision, as after a preview, the standing is good for the number of requests that is reported
as remaining. -/
theorem goodFor_remaining (b : Bucket) (small : b.quota.burst.toNat < 2 ^ (53 : ℕ)) (s : Standing)
    (now : Instant) :
    b.GoodFor (b.decide s now).2 now (b.decide s now).1.remaining.toNat ∧
      b.GoodFor s now (b.preview s now).remaining.toNat := by
  have previewed (s : Standing) : b.GoodFor s now (b.preview s now).remaining.toNat := by
    rcases b with ⟨_ | _, q⟩
    · exact TokenBucket.goodFor_preview small s now
    · exact LeakyBucket.goodFor_preview small s now
  rw [← remaining_again]
  exact ⟨previewed _, previewed s⟩

/-- One unit per second, and three at once. -/
def threeAtOnce : Bucket := ⟨.leakyBucket, { Quota.onePerSecond with burst := 3 }⟩

/-- A level that is above zero by one step of the doubles at one. -/
def barely : Standing := .fresh (nearest false 1 (2 ^ (52 : ℕ))) .epoch

/-- Such a level leaves room for two of three units in exact numbers, but for three of them as computed: three
are reported, and three are admitted. -/
theorem goodFor_remaining_barely :
    threeAtOnce.quota.burst.toNat < 2 ^ (53 : ℕ) ∧ (threeAtOnce.preview barely .epoch).remaining = 3 ∧
      threeAtOnce.GoodFor barely .epoch 3 := by
  have told : (threeAtOnce.preview barely .epoch).remaining = 3 := by decide +kernel
  have kept := (goodFor_remaining threeAtOnce (by decide) barely .epoch).2
  rw [told] at kept
  exact ⟨by decide, told, kept⟩

end Bucket

end Admission
