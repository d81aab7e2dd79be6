import Admission.Proofs.Bucket.Decision
import Mathlib.Algebra.Order.Group.MinMax

/-!
# The account of a bucket

What a key has used of its burst is kept as an account: what the credits of a token bucket fall short of
the burst, or the level of a leaky bucket. An admitted request charges the account with one, and time
pays it back at the quota's rate, each up to a few roundings. The account stays between zero and the
burst with its slack, so a run cannot admit more than the burst and what was paid back meanwhile.

## Main definitions

* `Bucket.Account`: what a standing has used, within its bounds.
* `Bucket.admitted`: how many requests of a run are admitted.
* `Bucket.accrued`: what a run is paid back.

## Main results

* `Bucket.Account.decide`: the account after one request.
* `Bucket.admitted_le_accrued`: how many requests a run admits, whichever way the clock moves.
* `Bucket.admitted_le_of_sorted`: the same in exact time, for a clock that does not run backwards.
-/

namespace Admission

open Binary64

-- Powers of natural numbers are the core library's, whatever else is in scope.
attribute [local instance (high)] instPowNat

/-- The most that one rounding adds to or takes from an account. -/
def Quota.grain (q : Quota) : ℚ := roundoff * (q.burst.toNat + 1)

theorem Quota.grain_nonneg (q : Quota) : 0 ≤ q.grain :=
  mul_nonneg roundoff_pos.le (by positivity)

variable {q : Quota} {x p : ℚ}

/-- Rounding a number no larger than the burst and one costs at most a grain. -/
theorem abs_rounded_sub_le_grain (grid : OnGrid x) (size : |x| ≤ q.burst.toNat + 1) :
    |rounded x - x| ≤ q.grain := by
  refine grid.abs_rounded_sub_le.trans ?_
  rw [Quota.grain, mul_comm]
  exact mul_le_mul_of_nonneg_left size roundoff_pos.le

/-- Numbers do not move apart when they are capped. -/
theorem abs_inf_sub_inf_le (x y top : ℚ) : |x ⊓ top - y ⊓ top| ≤ |x - y| := by
  simpa using abs_min_sub_min_le_max x top y top

/-! ### Token buckets -/

namespace TokenBucket

variable {s : Standing} {d : Duration} {a c : ℚ} {y : Binary64}

theorem pos_of_le_rounded (admitted : 1 ≤ rounded (a + slack)) : 0 < a := by
  by_contra none
  have half := rounded_div_two_pow (m := 1) (k := 1) (by decide) (by omega)
  have : rounded (a + slack) ≤ rounded ((1 : ℕ) / 2 ^ 1) :=
    rounded_mono (by norm_num; linarith [slack_le])
  norm_num [half] at this
  linarith

/-- What counts as one credit up to the slack falls short of one by little more than the slack. -/
theorem one_sub_le_of_le_rounded (admitted : 1 ≤ rounded (a + slack)) : 1 - slack - 1 / 2 ^ 54 ≤ a := by
  rcases le_or_gt 1 (a + slack) with enough | less
  · linarith [show (0 : ℚ) ≤ 1 / 2 ^ 54 by positivity]
  · have positive := slack_pos
    have nonneg := (pos_of_le_rounded admitted).le
    have := abs_rounded_sub_le_of_lt (k := 0) (by
      rw [pow_zero]
      exact abs_lt.2 ⟨by linarith, less⟩)
    rw [pow_zero] at this
    linarith [(abs_le.1 this).2]

/-- Below one the doubles are whole numbers of 2⁻⁵³, and the slack has 9007199 of them. -/
theorem le_add_of_one_sub_le {k : ℕ} (near : 1 - slack - 1 / 2 ^ 54 ≤ (k : ℚ) / 2 ^ 53) :
    2 ^ (53 : ℕ) ≤ k + 9007199 := by
  have slackHigh := slack_bounds.2
  by_contra few
  have few : (k : ℚ) + 9007200 ≤ 2 ^ 53 := by exact_mod_cast Nat.lt_of_not_le few
  norm_num [roundoff] at slackHigh near few
  linarith

/-- A credit that counts as one up to the slack leaves a debt of at most the slack. -/
theorem neg_le_rounded_sub_one (h : Denotes y a) (admitted : 1 ≤ rounded (a + slack)) :
    -(1 / 10 ^ 9) ≤ rounded (a - 1) := by
  rcases le_or_gt 1 a with whole | short
  · exact le_trans (by norm_num) (rounded_nonneg (sub_nonneg.2 whole))
  have near := one_sub_le_of_le_rounded admitted
  obtain ⟨k, rfl⟩ := h.exists_eq_div (t := 53) (by omega) (by
    have slackHigh := slack_bounds.2
    norm_num [roundoff] at slackHigh ⊢
    linarith)
  have debt : -((9007199 : ℕ) / 2 ^ 53 : ℚ) ≤ k / 2 ^ 53 - 1 := by
    have : (2 : ℚ) ^ 53 ≤ k + 9007199 := by exact_mod_cast le_add_of_one_sub_le near
    rw [le_sub_iff_add_le, ← sub_eq_neg_add, le_div_iff₀ (by positivity), sub_mul,
      div_mul_cancel₀ _ (by positivity)]
    push_cast
    linarith
  have kept := rounded_div_two_pow (m := 9007199) (k := 53) (by decide) (by omega)
  calc -(1 / 10 ^ 9 : ℚ) ≤ -((9007199 : ℕ) / 2 ^ 53 : ℚ) := by norm_num
    _ = rounded (-((9007199 : ℕ) / 2 ^ 53 : ℚ)) := by rw [rounded_neg, kept]
    _ ≤ rounded (k / 2 ^ 53 - 1) := rounded_mono debt

/-- The credits found stay within their bounds. -/
theorem ready_bounds {debt : ℚ} (nonneg : 0 ≤ debt) (h : Denotes y c) (low : -debt ≤ c) :
    -debt ≤ ready q d c ∧ ready q d c ≤ q.roundedBurst := by
  have refilled : c ≤ rounded (c + accrual q d) := by
    conv_lhs => rw [← h.rounded_eq]
    exact rounded_mono (by linarith [accrual_nonneg q d])
  have := q.roundedBurst_nonneg
  exact ⟨le_inf (low.trans refilled) (by linarith), inf_le_right⟩

/-- The credits ready are the sum of the credits and what accrued, capped at the burst, up to one rounding. -/
theorem abs_ready_sub_le (small : q.burst.toNat < 2 ^ (53 : ℕ)) (h : Denotes y c) (low : -1 ≤ c) :
    |ready q d c - (c + accrual q d) ⊓ q.burst.toNat| ≤ q.grain := by
  have burst : (0 : ℚ) ≤ q.burst.toNat := Nat.cast_nonneg _
  rw [ready, Quota.roundedBurst_eq small]
  rcases le_or_gt (c + accrual q d) q.burst.toNat with short | full
  · refine (abs_inf_sub_inf_le _ _ _).trans (abs_rounded_sub_le_grain (h.onGrid.add (onGrid_accrual q d)) ?_)
    exact abs_le.2 ⟨by linarith [accrual_nonneg q d], by linarith⟩
  · have above : (q.burst.toNat : ℚ) ≤ rounded (c + accrual q d) :=
      (rounded_natCast small.le).ge.trans (rounded_mono full.le)
    rw [inf_eq_right.2 above, inf_eq_right.2 full.le, sub_self, abs_zero]
    exact q.grain_nonneg

variable (now : Instant)

/-- The credits kept stay within their bounds, if these leave room for the slack. -/
theorem decide_bounds {debt : ℚ} (room : 1 / 10 ^ 9 ≤ debt) (h : Denotes s.credits c) (low : -debt ≤ c) :
    ∃ next, Denotes (decide q s now).2.credits next ∧ -debt ≤ next ∧ next ≤ q.roundedBurst := by
  obtain ⟨readyLow, readyHigh⟩ :=
    ready_bounds (q := q) (d := s.lastUpdate.since now) (le_trans (by norm_num) room) h low
  obtain ⟨admission, next⟩ := decide_spec q now h
  have found := denotes_available q now h
  refine ⟨_, next, ?_⟩
  split
  case isTrue allowed =>
    refine ⟨(neg_le_neg room).trans (neg_le_rounded_sub_one found (admission.1 allowed)), ?_⟩
    exact (rounded_mono (sub_le_self _ zero_le_one)).trans (found.rounded_eq.trans_le readyHigh)
  case isFalse => exact ⟨readyLow, readyHigh⟩

/-- A request takes what it is admitted for from the credits and what accrued, up to two roundings. -/
theorem decide_charge (small : q.burst.toNat < 2 ^ (53 : ℕ)) (h : Denotes s.credits c)
    (low : -(1 / 10 ^ 9) ≤ c) :
    ∃ next, Denotes (decide q s now).2.credits next ∧
      next + (decide q s now).1.allowed.toNat ≤
        c + accrual q (s.lastUpdate.since now) + 2 * q.grain := by
  obtain ⟨readyLow, readyHigh⟩ :=
    ready_bounds (q := q) (d := s.lastUpdate.since now) (by norm_num) h low
  obtain ⟨admission, next⟩ := decide_spec q now h
  have found := denotes_available q now h
  refine ⟨_, next, ?_⟩
  have grain := q.grain_nonneg
  have burst : (0 : ℚ) ≤ q.burst.toNat := by positivity
  rw [Quota.roundedBurst_eq small] at readyHigh
  -- The ceiling only takes credits away.
  have refill : ready q (s.lastUpdate.since now) c ≤ c + accrual q (s.lastUpdate.since now) + q.grain := by
    have near := abs_ready_sub_le (q := q) (d := s.lastUpdate.since now) small h (by linarith)
    have capped : (c + accrual q (s.lastUpdate.since now)) ⊓ q.burst.toNat ≤ _ := inf_le_left
    linarith [(abs_le.1 near).2]
  cases allowed : (decide q s now).1.allowed with
  | false =>
    simp only [Bool.false_eq_true, if_false, Bool.toNat_false, Nat.cast_zero]
    linarith
  | true =>
    have nonneg := (pos_of_le_rounded (admission.1 allowed)).le
    have near := abs_rounded_sub_le_grain (q := q)
      (found.onGrid.sub (by simpa using onGrid_natCast 1)) (abs_le.2 ⟨by linarith, by linarith⟩)
    simp only [if_true, Bool.toNat_true, Nat.cast_one]
    linarith [(abs_le.1 near).2]

end TokenBucket

/-! ### Leaky buckets -/

namespace LeakyBucket

variable {s : Standing} {d : Duration} {l : ℚ} {y : Binary64}

/-- The level up to which a unit may still be poured. -/
def brim (q : Quota) : ℚ := rounded (q.roundedBurst + slack)

theorem denotes_brim (q : Quota) : Denotes (q.ceiling + creditSlack) (brim q) :=
  q.denotes_ceiling.add_of_small denotes_creditSlack abs_slack_lt

theorem brim_nonneg (q : Quota) : 0 ≤ brim q :=
  rounded_nonneg (add_nonneg q.roundedBurst_nonneg slack_pos.le)

theorem roundedBurst_le_brim (q : Quota) : q.roundedBurst ≤ brim q := by
  conv_lhs => rw [← q.denotes_ceiling.rounded_eq]
  exact rounded_mono (le_add_of_nonneg_right slack_pos.le)

theorem brim_lt (small : q.burst.toNat < 2 ^ (53 : ℕ)) : brim q < q.burst.toNat + 1 := by
  have burst : (0 : ℚ) ≤ q.burst.toNat := by positivity
  have positive := slack_pos
  have high := slack_bounds.2
  have bound : (q.burst.toNat : ℚ) + 1 ≤ 2 ^ 53 := by exact_mod_cast small
  have near := abs_rounded_sub_le_of_lt (q := q.burst.toNat + slack) (k := 53) (by
    rw [abs_of_nonneg (by linarith)]
    linarith [slack_le])
  rw [brim, Quota.roundedBurst_eq small]
  norm_num [roundoff] at near high
  linarith [(abs_le.1 near).2]

/-- The brim lies above the burst by the slack and one rounding at most. -/
theorem brim_le_add_grain (small : q.burst.toNat < 2 ^ (53 : ℕ)) :
    brim q ≤ q.burst.toNat + 1 / 10 ^ 9 + q.grain := by
  have burst : (0 : ℚ) ≤ q.burst.toNat := by positivity
  have high := slack_bounds.2
  have near := (onGrid_natCast q.burst.toNat).add (onGrid_rounded (1 / 10 ^ 9)) |>.abs_rounded_sub_le
  rw [← slack, abs_of_nonneg (add_nonneg burst slack_pos.le)] at near
  rw [brim, Quota.roundedBurst_eq small, Quota.grain]
  norm_num [roundoff] at near high ⊢
  linarith [(abs_le.1 near).2]

/-- The level found stays within its bounds. -/
theorem drained_bounds (h : Denotes y l) (high : l ≤ brim q) : 0 ≤ drained q d l ∧ drained q d l ≤ brim q := by
  have leaked : rounded (l - accrual q d) ≤ l := by
    conv_rhs => rw [← h.rounded_eq]
    exact rounded_mono (by linarith [accrual_nonneg q d])
  exact ⟨le_sup_right, sup_le (leaked.trans high) (brim_nonneg q)⟩

variable (now : Instant)

/-- The level kept stays within its bounds. -/
theorem decide_bounds (h : Denotes s.credits l) (high : l ≤ brim q) :
    ∃ next, Denotes (decide q s now).2.credits next ∧ 0 ≤ next ∧ next ≤ brim q := by
  obtain ⟨foundLow, foundHigh⟩ := drained_bounds (d := s.lastUpdate.since now) h high
  obtain ⟨admission, next⟩ := decide_spec q now h
  refine ⟨_, next, ?_⟩
  split
  case isTrue allowed => exact ⟨rounded_nonneg (by linarith), admission.1 allowed⟩
  case isFalse => exact ⟨foundLow, foundHigh⟩

/-- A unit is poured below the burst only. -/
theorem lt_of_rounded_add_one_le {m : ℚ} (small : q.burst.toNat < 2 ^ (53 : ℕ))
    (fits : rounded (m + 1) ≤ brim q) : m < q.burst.toNat := by
  by_contra full
  have whole := rounded_natCast (n := q.burst.toNat + 1) small
  rw [Nat.cast_add, Nat.cast_one] at whole
  have above : rounded (q.burst.toNat + 1) ≤ rounded (m + 1) := rounded_mono (by linarith)
  linarith [brim_lt small]

/-- A request adds what it is admitted for to the level less what drained, up to two roundings. -/
theorem decide_charge (small : q.burst.toNat < 2 ^ (53 : ℕ)) (h : Denotes s.credits l)
    (high : l ≤ brim q) :
    ∃ next, Denotes (decide q s now).2.credits next ∧
      l + (decide q s now).1.allowed.toNat ≤
        next + accrual q (s.lastUpdate.since now) + 2 * q.grain := by
  obtain ⟨foundLow, -⟩ := drained_bounds (d := s.lastUpdate.since now) h high
  obtain ⟨admission, next⟩ := decide_spec q now h
  have found := denotes_level q now h
  refine ⟨_, next, ?_⟩
  have grain := q.grain_nonneg
  have top := brim_lt small
  -- The floor only adds to the level, so above it there is one rounding to account for.
  have drain : l ≤ drained q (s.lastUpdate.since now) l + accrual q (s.lastUpdate.since now) + q.grain := by
    rcases le_total l (accrual q (s.lastUpdate.since now)) with empty | rest
    · linarith
    · have nonneg := accrual_nonneg q (s.lastUpdate.since now)
      have near := abs_rounded_sub_le_grain (q := q) (h.onGrid.sub (onGrid_accrual _ _))
        (abs_le.2 ⟨by linarith, by linarith⟩)
      have kept : rounded (l - accrual q (s.lastUpdate.since now)) ≤
        drained q (s.lastUpdate.since now) l := le_sup_left
      linarith [(abs_le.1 near).1]
  cases allowed : (decide q s now).1.allowed with
  | false =>
    simp only [Bool.false_eq_true, if_false, Bool.toNat_false, Nat.cast_zero]
    linarith
  | true =>
    have below := lt_of_rounded_add_one_le small (admission.1 allowed)
    have near := abs_rounded_sub_le_grain (q := q)
      (found.onGrid.add (by simpa using onGrid_natCast 1)) (abs_le.2 ⟨by linarith, by linarith⟩)
    simp only [if_true, Bool.toNat_true, Nat.cast_one]
    linarith [(abs_le.1 near).1]

end LeakyBucket

/-! ### Accounts -/

namespace Bucket

/-- What a standing has used of the burst: what the credits of a token bucket fall short of it, and the
level of a leaky bucket. -/
def Used (b : Bucket) (s : Standing) (u : ℚ) : Prop :=
  match b.algorithm with
  | .tokenBucket => Denotes s.credits (b.quota.roundedBurst - u)
  | .leakyBucket => Denotes s.credits u

theorem used_tokenBucket {q : Quota} {s : Standing} {u : ℚ} :
    Bucket.Used ⟨.tokenBucket, q⟩ s u ↔ Denotes s.credits (q.roundedBurst - u) := Iff.rfl

theorem used_leakyBucket {q : Quota} {s : Standing} {u : ℚ} :
    Bucket.Used ⟨.leakyBucket, q⟩ s u ↔ Denotes s.credits u := Iff.rfl

/-- The most that can be used: the burst and the slack. -/
def brim (b : Bucket) : ℚ :=
  match b.algorithm with
  | .tokenBucket => b.quota.roundedBurst + 1 / 10 ^ 9
  | .leakyBucket => LeakyBucket.brim b.quota

/-- What a standing has used, within its bounds. -/
structure Account (b : Bucket) (s : Standing) (u : ℚ) : Prop where
  used : b.Used s u
  nonneg : 0 ≤ u
  le_brim : u ≤ b.brim

variable {b : Bucket} {s : Standing} {now : Instant} {u : ℚ}

theorem brim_nonneg (b : Bucket) : 0 ≤ b.brim := by
  rcases b with ⟨_ | _, q⟩
  · exact add_nonneg q.roundedBurst_nonneg (by norm_num)
  · exact LeakyBucket.brim_nonneg q

theorem brim_le_add_grain (small : b.quota.burst.toNat < 2 ^ (53 : ℕ)) :
    b.brim ≤ b.quota.burst.toNat + 1 / 10 ^ 9 + b.quota.grain := by
  rcases b with ⟨_ | _, q⟩
  · rw [brim, Quota.roundedBurst_eq small]
    exact le_add_of_nonneg_right q.grain_nonneg
  · exact LeakyBucket.brim_le_add_grain small

/-- A key starts with nothing used. -/
theorem account_fresh (b : Bucket) (now : Instant) : b.Account (b.fresh now) 0 where
  used := by
    rcases b with ⟨_ | _, q⟩
    · rw [used_tokenBucket, sub_zero]
      exact q.denotes_ceiling
    · exact denotes_ofNat_zero
  nonneg := le_rfl
  le_brim := b.brim_nonneg

theorem Account.tokenBucket {q : Quota} (h : Account ⟨.tokenBucket, q⟩ s u) :
    Denotes s.credits (q.roundedBurst - u) ∧ -(1 / 10 ^ 9) ≤ q.roundedBurst - u := by
  have high : u ≤ q.roundedBurst + 1 / 10 ^ 9 := h.le_brim
  exact ⟨h.used, by linarith⟩

/-- The account of the standing that a request leaves. -/
theorem Account.decide (h : b.Account s u) (now : Instant) : ∃ v, b.Account (b.decide s now).2 v := by
  rcases b with ⟨_ | _, q⟩
  · obtain ⟨used, low⟩ := h.tokenBucket
    obtain ⟨next, kept, low, high⟩ := TokenBucket.decide_bounds now le_rfl used low
    refine ⟨q.roundedBurst - next, ⟨?_, by linarith, ?_⟩⟩
    · rw [used_tokenBucket, sub_sub_cancel]
      exact kept
    · rw [brim]
      linarith
  · obtain ⟨next, kept, low, high⟩ := LeakyBucket.decide_bounds now h.used h.le_brim
    exact ⟨next, ⟨kept, low, high⟩⟩

/-- A request charges its account with one when it is admitted, and what accrued is paid back, each up
to a rounding. -/
theorem Account.charge {v : ℚ} (small : b.quota.burst.toNat < 2 ^ (53 : ℕ)) (h : b.Account s u)
    (h' : b.Used (b.decide s now).2 v) :
    u + (b.decide s now).1.allowed.toNat ≤
      v + accrual b.quota (s.lastUpdate.since now) + 2 * b.quota.grain := by
  rcases b with ⟨_ | _, q⟩
  · obtain ⟨used, low⟩ := h.tokenBucket
    obtain ⟨next, kept, charge⟩ := TokenBucket.decide_charge now small used low
    have same := Denotes.unique h' kept
    have allowed : (Bucket.decide ⟨.tokenBucket, q⟩ s now).1.allowed =
      (TokenBucket.decide q s now).1.allowed := rfl
    rw [allowed]
    linarith
  · obtain ⟨next, kept, charge⟩ := LeakyBucket.decide_charge now small h.used h.le_brim
    rwa [Denotes.unique h' kept]

theorem decide_lastUpdate (b : Bucket) (s : Standing) (now : Instant) :
    (b.decide s now).2.lastUpdate = now := by
  rcases b with ⟨_ | _, q⟩ <;> rfl

theorem decide_created (b : Bucket) (s : Standing) (now : Instant) :
    (b.decide s now).2.created = s.created := by
  rcases b with ⟨_ | _, q⟩
  · rw [decide, TokenBucket.decide]
  · rw [decide, LeakyBucket.decide]

theorem fresh_created (b : Bucket) (now : Instant) : (b.fresh now).created = now := by
  rcases b with ⟨_ | _, q⟩ <;> rfl

theorem fresh_lastUpdate (b : Bucket) (now : Instant) : (b.fresh now).lastUpdate = now := by
  rcases b with ⟨_ | _, q⟩ <;> rfl

/-! ### Runs -/

/-- How many requests of a run are admitted. -/
def admitted (b : Bucket) (s : Standing) (times : List Instant) : ℕ :=
  (b.run s times).countP (·.1.allowed)

/-- What the quota is computed to give from step to step of the clock. -/
def accrued (q : Quota) (last : Instant) : List Instant → ℚ
  | [] => 0
  | now :: later => accrual q (last.since now) + accrued q now later

@[simp]
theorem admitted_nil (b : Bucket) (s : Standing) : b.admitted s [] = 0 := rfl

theorem admitted_cons (b : Bucket) (s : Standing) (now : Instant) (later : List Instant) :
    b.admitted s (now :: later) =
      (b.decide s now).1.allowed.toNat + b.admitted (b.decide s now).2 later := by
  rw [admitted, run, List.countP_cons, ← admitted, Nat.add_comm]
  cases (b.decide s now).1.allowed <;> rfl

theorem admitted_append (b : Bucket) (s : Standing) (times more : List Instant) :
    b.admitted s (times ++ more) =
      b.admitted s times + b.admitted (b.standingAfter s times) more := by
  induction times generalizing s with
  | nil => simp [standingAfter]
  | cons now later ih =>
    rw [List.cons_append, admitted_cons, admitted_cons, ih, Nat.add_assoc]
    rfl

/-- Every run charges the account with the requests that it admits. -/
theorem Account.run (small : b.quota.burst.toNat < 2 ^ (53 : ℕ)) (times : List Instant)
    (h : b.Account s u) :
    ∃ v, b.Account (b.standingAfter s times) v ∧
      u + b.admitted s times ≤
        v + accrued b.quota s.lastUpdate times + 2 * times.length * b.quota.grain := by
  induction times generalizing s u with
  | nil => exact ⟨u, h, by simp [accrued]⟩
  | cons now later ih =>
    -- What one request leaves is what the next one starts from, so that the charges add up.
    obtain ⟨v, next⟩ := h.decide now
    obtain ⟨w, last, rest⟩ := ih next
    have charge := h.charge small next.used
    refine ⟨w, last, ?_⟩
    rw [b.decide_lastUpdate] at rest
    rw [admitted_cons, accrued, List.length_cons]
    push_cast
    linarith

/-- A run from a new key admits no more than the burst and what accrued meanwhile, whichever way the
clock moves. -/
theorem admitted_le_accrued (small : b.quota.burst.toNat < 2 ^ (53 : ℕ)) (first : Instant)
    (times : List Instant) :
    b.admitted (b.fresh first) times ≤
      b.quota.burst.toNat + accrued b.quota first times + (2 * times.length + 1) * b.quota.grain +
        1 / 10 ^ 9 := by
  obtain ⟨v, last, charge⟩ := (b.account_fresh first).run small times
  rw [b.fresh_lastUpdate] at charge
  linarith [last.le_brim, brim_le_add_grain small]

/-- How long the clock moves forward, from step to step. -/
def forwardSeconds (last : Instant) : List Instant → ℚ
  | [] => 0
  | now :: later => (last.since now).exactSeconds + forwardSeconds now later

theorem accrued_le (q : Quota) (last : Instant) (times : List Instant) :
    accrued q last times ≤ q.exactRate * forwardSeconds last times * (1 + 1 / 2 ^ 50) := by
  induction times generalizing last with
  | nil => simp [accrued, forwardSeconds]
  | cons now later ih =>
    have here := accrual_le q (last.since now)
    rw [accrued, forwardSeconds]
    linarith [ih now]

/-- A clock that never runs backwards moves forward from the first reading to the last. -/
theorem forwardSeconds_eq (first : Instant) (later : List Instant)
    (sorted : (first :: later).Pairwise fun t u => t.nanos ≤ u.nanos) :
    forwardSeconds first later =
      (first.since ((first :: later).getLast (List.cons_ne_nil _ _))).exactSeconds := by
  induction later generalizing first with
  | nil => simp [forwardSeconds, Instant.since_self, Duration.exactSeconds, Duration.zero]
  | cons next rest ih =>
    obtain ⟨below, sorted⟩ := List.pairwise_cons.1 sorted
    have last := List.getLast_mem (List.cons_ne_nil next rest)
    have onward : next.nanos ≤ ((next :: rest).getLast (List.cons_ne_nil _ _)).nanos := by
      rcases List.mem_cons.1 last with same | later
      · rw [same]
      · exact (List.pairwise_cons.1 sorted).1 _ later
    rw [forwardSeconds, ih next sorted, List.getLast_cons (List.cons_ne_nil _ _),
      Instant.exactSeconds_since (below next List.mem_cons_self), Instant.exactSeconds_since onward,
      Instant.exactSeconds_since (below _ last)]
    ring

/-- A run from a new key admits no more than the burst and what the quota gives while the clock moves
forward, up to rounding and the slack. -/
theorem admitted_le_forward (b : Bucket) (small : b.quota.burst.toNat < 2 ^ (53 : ℕ)) (first : Instant)
    (later : List Instant) :
    b.admitted (b.fresh first) (first :: later) ≤
      b.quota.burst.toNat + b.quota.exactRate * forwardSeconds first later * (1 + 1 / 2 ^ 50) +
        (first :: later).length * (1 / 2 ^ 51) * (b.quota.burst.toNat + 1) + 1 / 10 ^ 9 := by
  have start : accrued b.quota first (first :: later) = accrued b.quota first later := by
    rw [accrued, Instant.since_self, accrual_zero, zero_add]
  have account := admitted_le_accrued small first (first :: later)
  have elapsed := accrued_le b.quota first later
  have length : (1 : ℚ) ≤ (first :: later).length := by
    rw [List.length_cons, Nat.cast_add, Nat.cast_one]
    exact le_add_of_nonneg_left (Nat.cast_nonneg _)
  -- Two roundings for each request and one for the brim are no more than four for each request.
  have roundings : (2 * (first :: later).length + 1) * b.quota.grain ≤
      (first :: later).length * (1 / 2 ^ 51) * (b.quota.burst.toNat + 1) := by
    calc (2 * (first :: later).length + 1) * b.quota.grain
        ≤ 4 * (first :: later).length * b.quota.grain :=
          mul_le_mul_of_nonneg_right (by linarith) b.quota.grain_nonneg
      _ = (first :: later).length * (1 / 2 ^ 51) * (b.quota.burst.toNat + 1) := by
        rw [Quota.grain, roundoff]
        ring
  linarith

/-- Over a clock that does not run backwards, a run from a new key admits no more than the burst and
what the quota gives in the exact time of the run, up to rounding and the slack. -/
theorem admitted_le_of_sorted (b : Bucket) (small : b.quota.burst.toNat < 2 ^ (53 : ℕ)) (first : Instant)
    (later : List Instant) (sorted : (first :: later).Pairwise fun t u => t.nanos ≤ u.nanos) :
    b.admitted (b.fresh first) (first :: later) ≤
      b.quota.burst.toNat +
        b.quota.exactRate *
            (first.since ((first :: later).getLast (List.cons_ne_nil _ _))).exactSeconds *
          (1 + 1 / 2 ^ 50) +
        (first :: later).length * (1 / 2 ^ 51) * (b.quota.burst.toNat + 1) + 1 / 10 ^ 9 := by
  rw [← forwardSeconds_eq first later sorted]
  exact b.admitted_le_forward small first later

end Bucket

/-- The instant one second after the epoch. -/
def Instant.second : Instant := ⟨1000000000, by decide, by decide⟩

/-- One credit per second, and one at once. -/
def Quota.onePerSecond : Quota where
  limit := 1
  interval := ⟨1000000000, by decide⟩
  burst := 1
  limit_ne_zero := by decide
  interval_ne_zero := by decide

/-- Two requests at the epoch and one a second later, of which two are admitted. -/
theorem Bucket.admitted_onePerSecond_le :
    Quota.onePerSecond.burst.toNat < 2 ^ (53 : ℕ) ∧
      [Instant.epoch, Instant.epoch, Instant.second].Pairwise (fun t u => t.nanos ≤ u.nanos) ∧
      Bucket.admitted ⟨.leakyBucket, .onePerSecond⟩ (Bucket.fresh ⟨.leakyBucket, .onePerSecond⟩ .epoch)
        [.epoch, .epoch, .second] = 2 ∧
      (2 : ℕ) ≤ Quota.onePerSecond.burst.toNat +
        Quota.onePerSecond.exactRate * (Instant.epoch.since .second).exactSeconds * (1 + 1 / 2 ^ 50) +
        (3 : ℕ) * (1 / 2 ^ 51) * (Quota.onePerSecond.burst.toNat + 1) + 1 / 10 ^ 9 := by
  have count : Bucket.admitted ⟨.leakyBucket, .onePerSecond⟩
      (Bucket.fresh ⟨.leakyBucket, .onePerSecond⟩ .epoch) [.epoch, .epoch, .second] = 2 := by
    decide +kernel
  have bound := Bucket.admitted_le_of_sorted ⟨.leakyBucket, .onePerSecond⟩ (by decide) .epoch
    [.epoch, .second] (by decide)
  rw [count] at bound
  exact ⟨by decide, by decide, count, bound⟩

end Admission
