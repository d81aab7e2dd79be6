import Admission.Proofs.Bucket.Repeated
import Admission.Proofs.Bucket.Standstill

/-!
# Clocks that run backwards and forward again

A step of the clock backwards gives nothing, but it moves the last update back with it, so that the way
forward again is paid out although the clock has been there before. A run whose clock never passes its
first reading is therefore held to the burst only if the clock never moves forward on the way.

## Main results

* `Bucket.Used.allowed_of_le_accrual`: a full account that is paid back one is charged again.
* `Bucket.heldToBurst_iff`: which readings hold every bucket to its burst, which
  buckets are held to it by all readings, and how much is admitted otherwise.
-/

namespace Admission

open Binary64

-- Powers of natural numbers are the core library's, whatever else is in scope.
attribute [local instance (high)] instPowNat

variable {q : Quota} {s : Standing} {now : Instant}

/-! ### Paying back one credit -/

theorem TokenBucket.allowed_of_le_accrual {c : ℚ} (h : Denotes s.credits c) (low : 0 ≤ c)
    (some : 0 < q.burst.toNat) (paid : 1 ≤ accrual q (s.lastUpdate.since now)) :
    (decide q s now).1.allowed = true := by
  have found : 1 ≤ ready q (s.lastUpdate.since now) c :=
    le_inf (one_le_rounded (by linarith)) (Quota.one_le_roundedBurst some)
  exact (decide_spec q now h).1.2 (one_le_rounded (by linarith [slack_pos]))

theorem LeakyBucket.allowed_of_le_accrual (small : q.burst.toNat < 2 ^ (53 : ℕ)) {l : ℚ}
    (h : Denotes s.credits l) (high : l ≤ q.burst.toNat) (some : 0 < q.burst.toNat)
    (paid : 1 ≤ accrual q (s.lastUpdate.since now)) : (decide q s now).1.allowed = true := by
  have whole : rounded ((q.burst.toNat : ℚ) - 1) = q.burst.toNat - 1 := by
    rw [← Nat.cast_pred some, rounded_natCast (by omega)]
  have burst : (1 : ℚ) ≤ q.burst.toNat := by exact_mod_cast some
  have found : drained q (s.lastUpdate.since now) l ≤ q.burst.toNat - 1 := by
    refine sup_le ?_ (by linarith)
    rw [← whole]
    exact rounded_mono (by linarith)
  rw [(decide_spec q now h).1, Quota.roundedBurst_eq small]
  exact rounded_mono (by linarith [slack_pos])

namespace Bucket

variable {b : Bucket} {j : ℕ}

/-- Without a burst nothing is admitted. -/
theorem admitted_eq_zero (none : b.quota.burst = 0) (s : Standing) (times : List Instant) :
    b.admitted s times = 0 := by
  induction times generalizing s with
  | nil => rfl
  | cons now later ih =>
    have denied : (b.decide s now).1.allowed = false := by
      rw [← Bool.not_eq_true]
      intro allowed
      rcases b with ⟨_ | _, q⟩
      · exact TokenBucket.burst_ne_zero_of_allowed allowed none
      · exact LeakyBucket.burst_ne_zero_of_allowed allowed none
    rw [admitted_cons, denied, ih, Bool.toNat_false]

/-- However much is used of a burst, one credit paid back admits one request. -/
theorem Used.allowed_of_le_accrual (small : b.quota.burst.toNat < 2 ^ (53 : ℕ)) (h : b.Used s j)
    (room : j ≤ b.quota.burst.toNat) (some : 0 < b.quota.burst.toNat)
    (paid : 1 ≤ accrual b.quota (s.lastUpdate.since now)) : (b.decide s now).1.allowed = true := by
  have within : (j : ℚ) ≤ b.quota.burst.toNat := by exact_mod_cast room
  rcases b with ⟨_ | _, q⟩
  · rw [used_tokenBucket, Quota.roundedBurst_eq small] at h
    exact TokenBucket.allowed_of_le_accrual h (sub_nonneg.2 within) some paid
  · rw [used_leakyBucket] at h
    exact LeakyBucket.allowed_of_le_accrual small h within some paid

end Bucket

/-- The shortest duration that is not zero. -/
def Duration.nanosecond : Duration := ⟨1, by decide⟩

/-- The fastest quota, with a burst of one. -/
def Quota.fastest : Quota where
  limit := 18446744073709551615
  interval := Duration.nanosecond
  burst := 1
  limit_ne_zero := by decide
  interval_ne_zero := by decide

theorem Quota.burst_fastest : Quota.fastest.burst.toNat = 1 := rfl

theorem Quota.burst_fastest_lt : Quota.fastest.burst.toNat < 2 ^ (53 : ℕ) := by decide

theorem Quota.le_roundedRate_fastest : 2 ^ 31 ≤ Quota.fastest.roundedRate := by
  have exact : Quota.fastest.exactRate = 18446744073709551615 * 1000000000 := by
    have limit : Quota.fastest.limit.toNat = 18446744073709551615 := rfl
    rw [exactRate, limit, Duration.exactSeconds]
    norm_num [fastest, Duration.nanosecond, nanosPerSecond]
  have low := Quota.fastest.roundedRate_bounds.1
  rw [exact] at low
  exact le_trans (by norm_num [roundoff]) low

/-- At the fastest quota every step forward pays one credit. -/
theorem one_le_accrual_fastest {d : Duration} (some : 1 ≤ d.nanos) : 1 ≤ accrual Quota.fastest d := by
  have product := mul_le_mul (Duration.le_roundedSeconds some) Quota.le_roundedRate_fastest
    (by positivity) d.roundedSeconds_nonneg
  exact one_le_rounded (le_trans (by norm_num) product)

/-- From the first instant to the last every quota pays one credit. -/
theorem one_le_accrual_max (q : Quota) : 1 ≤ accrual q Duration.max := by
  have product := mul_le_mul_of_nonneg_left q.le_roundedRate (by positivity : (0 : ℚ) ≤ 2 ^ 64)
  rw [accrual, Duration.roundedSeconds_max]
  exact one_le_rounded (le_trans (by norm_num) product)

/-- The first instant. -/
def Instant.earliest : Instant := ⟨-Instant.reach, by decide, by decide⟩

/-- The last instant. -/
def Instant.latest : Instant := ⟨Instant.reach - 1, by decide, by decide⟩

theorem Instant.since_earliest_latest : Instant.earliest.since Instant.latest = Duration.max := by
  decide

/-! ### Runs that never pass their first reading -/

namespace Bucket

/-- A run from a new key is admitted no further than the burst. -/
def HeldToBurst (b : Bucket) (first : Instant) (later : List Instant) : Prop :=
  b.admitted (b.fresh first) (first :: later) ≤ b.quota.burst.toNat

/-- With the fastest quota used up, a run that is denied throughout has a clock that never moves
forward. -/
theorem never_forward_of_admitted_eq_zero {algorithm : Algorithm} {times : List Instant}
    (h : Used ⟨algorithm, .fastest⟩ s (1 : ℕ)) (none : admitted ⟨algorithm, .fastest⟩ s times = 0) :
    (s.lastUpdate :: times).Pairwise fun t u => u.nanos ≤ t.nanos := by
  induction times generalizing s with
  | nil => exact List.pairwise_singleton _ _
  | cons now later ih =>
    rw [admitted_cons, Nat.add_eq_zero_iff, Bool.toNat_eq_zero] at none
    obtain ⟨denied, none⟩ := none
    -- A step forward would be paid a credit, and the request admitted on it.
    have back : now.nanos ≤ s.lastUpdate.nanos := by
      by_contra forward
      have some : 1 ≤ (s.lastUpdate.since now).nanos := by
        simp only [Instant.since]
        omega
      have allowed := h.allowed_of_le_accrual Quota.burst_fastest_lt le_rfl Nat.one_pos
        (one_le_accrual_fastest some)
      rw [denied] at allowed
      cases allowed
    have rest := ih (h.decide_still Quota.burst_fastest_lt le_rfl back).2 none
    rw [decide_lastUpdate] at rest
    refine List.pairwise_cons.2 ⟨fun t member => ?_, rest⟩
    rcases List.mem_cons.1 member with rfl | later
    · exact back
    · exact ((List.pairwise_cons.1 rest).1 t later).trans back

/-- Readings hold every burst exactly if they never move forward. -/
theorem heldToBurst_iff_never_forward (algorithm : Algorithm) (first : Instant) (later : List Instant) :
    (∀ q : Quota, q.burst.toNat < 2 ^ (53 : ℕ) → HeldToBurst ⟨algorithm, q⟩ first later) ↔
      (first :: later).Pairwise fun t u => u.nanos ≤ t.nanos := by
  constructor
  · intro held
    -- One bucket is enough: its burst is used up by the first request.
    have held := held .fastest Quota.burst_fastest_lt
    have start : (first :: [first]).Pairwise fun t u => u.nanos ≤ t.nanos := by simp
    obtain ⟨one, used⟩ :=
      admitted_fresh_still (b := ⟨algorithm, .fastest⟩) Quota.burst_fastest_lt first start
    rw [HeldToBurst, ← List.singleton_append, admitted_append, one] at held
    have none : admitted ⟨algorithm, .fastest⟩ (standingAfter ⟨algorithm, .fastest⟩
        (fresh ⟨algorithm, .fastest⟩ first) [first]) later = 0 := by
      simp only [List.length_singleton, Quota.burst_fastest] at held
      omega
    have last := decide_lastUpdate ⟨algorithm, .fastest⟩ (fresh ⟨algorithm, .fastest⟩ first) first
    have := never_forward_of_admitted_eq_zero used none
    rwa [standingAfter, List.foldl_cons, List.foldl_nil, last] at this
  · intro back q small
    have still : (first :: first :: later).Pairwise fun t u => u.nanos ≤ t.nanos := by
      refine List.pairwise_cons.2 ⟨fun t member => ?_, back⟩
      rcases List.mem_cons.1 member with rfl | later
      · exact le_rfl
      · exact (List.pairwise_cons.1 back).1 t later
    have count := (admitted_fresh_still (b := ⟨algorithm, q⟩) small first still).1
    exact count.trans_le (min_le_right _ _)

/-- With the burst used up at the last instant, a clock that runs back to the first one and returns pays for one
request more. -/
theorem not_heldToBurst_thereAndBack (b : Bucket) (small : b.quota.burst.toNat < 2 ^ (53 : ℕ))
    (some : 0 < b.quota.burst.toNat) : ¬ b.HeldToBurst .latest
      (List.replicate (b.quota.burst.toNat - 1) .latest ++ [.earliest] ++ [.latest]) := by
  have readings : List.replicate b.quota.burst.toNat Instant.latest =
      .latest :: List.replicate (b.quota.burst.toNat - 1) .latest := by
    rw [← List.replicate_succ, Nat.sub_add_cancel some]
  have still : (Instant.latest :: (List.replicate b.quota.burst.toNat .latest ++ [.earliest])).Pairwise
      fun t u => u.nanos ≤ t.nanos := by
    rw [← List.cons_append, ← List.replicate_succ]
    refine List.pairwise_append.2 ⟨?_, List.pairwise_singleton _ _, ?_⟩
    · exact List.pairwise_replicate.2 (Or.inr le_rfl)
    · intro t _ u member
      rw [List.mem_singleton.1 member]
      exact t.le_nanos
  -- While the clock does not go forward, the burst is admitted and used up.
  obtain ⟨count, used⟩ := admitted_fresh_still small .latest still
  rw [List.length_append, List.length_replicate, List.length_singleton,
    Nat.min_eq_right (Nat.le_succ _)] at count used
  -- The way from the first instant back to the last is long enough for one more.
  have back := b.standingAfter_concat (b.fresh .latest)
    (List.replicate b.quota.burst.toNat .latest) .earliest
  have paid : (b.decide _ .latest).1.allowed = true := used.allowed_of_le_accrual small le_rfl some (by
    rw [back, decide_lastUpdate, Instant.since_earliest_latest]
    exact one_le_accrual_max _)
  rw [HeldToBurst, ← List.cons_append, ← List.cons_append, ← readings, admitted_append, count,
    admitted_cons, admitted_nil, paid, Bool.toNat_true]
  omega

/-- A bucket is held to its burst by all readings that never pass the first one only if there is
nothing to hold. -/
theorem heldToBurst_iff_burst_eq_zero (b : Bucket) (small : b.quota.burst.toNat < 2 ^ (53 : ℕ)) :
    (∀ first later, (∀ t ∈ later, t.nanos ≤ first.nanos) → b.HeldToBurst first later) ↔
      b.quota.burst = 0 := by
  constructor
  · intro held
    by_contra nonzero
    have some : 0 < b.quota.burst.toNat :=
      Nat.pos_of_ne_zero fun none => nonzero (UInt64.toNat_inj.1 none)
    exact b.not_heldToBurst_thereAndBack small some
      (held .latest _ fun t _ => Int.le_sub_one_of_lt t.nanos_lt)
  · intro none first later _
    rw [HeldToBurst, admitted_eq_zero none]
    exact Nat.zero_le _

/-- Among the readings that never pass the first one, exactly those that never move forward hold every
bucket to its burst, and only the buckets without a burst are held to it by all of them. Otherwise a
bucket admits beyond its burst no more than its quota gives while the clock moves forward. -/
theorem heldToBurst_iff (algorithm : Algorithm) :
    (∀ first later, (∀ t ∈ later, t.nanos ≤ first.nanos) →
      ((∀ q : Quota, q.burst.toNat < 2 ^ (53 : ℕ) → HeldToBurst ⟨algorithm, q⟩ first later) ↔
        (first :: later).Pairwise fun t u => u.nanos ≤ t.nanos)) ∧
    ∀ q : Quota, q.burst.toNat < 2 ^ (53 : ℕ) →
      ((∀ first later, (∀ t ∈ later, t.nanos ≤ first.nanos) →
        HeldToBurst ⟨algorithm, q⟩ first later) ↔ q.burst = 0) ∧
      ∀ first later, (∀ t ∈ later, t.nanos ≤ first.nanos) →
        admitted ⟨algorithm, q⟩ (fresh ⟨algorithm, q⟩ first) (first :: later) ≤
          q.burst.toNat + q.exactRate * forwardSeconds first later * (1 + 1 / 2 ^ 50) +
            (first :: later).length * (1 / 2 ^ 51) * (q.burst.toNat + 1) + 1 / 10 ^ 9 :=
  ⟨fun first later _ => heldToBurst_iff_never_forward algorithm first later,
    fun q small => ⟨heldToBurst_iff_burst_eq_zero ⟨algorithm, q⟩ small,
      fun first later _ => admitted_le_forward ⟨algorithm, q⟩ small first later⟩⟩

/-- At one credit per second, stepping back a second and forward again is paid a credit. -/
theorem admitted_there_and_back (algorithm : Algorithm) :
    admitted ⟨algorithm, .onePerSecond⟩ (fresh ⟨algorithm, .onePerSecond⟩ .second)
      [.second, .epoch, .second] = 2 := by
  cases algorithm <;> decide +kernel

/-- With a burst of one, a second request is admitted when the clock is back at its first reading. -/
theorem not_heldToBurst_there_and_back :
    Quota.onePerSecond.burst.toNat < 2 ^ (53 : ℕ) ∧
      (∀ t ∈ [Instant.epoch, Instant.second], t.nanos ≤ Instant.second.nanos) ∧
      ∀ algorithm, ¬ HeldToBurst ⟨algorithm, .onePerSecond⟩ .second [.epoch, .second] := by
  refine ⟨by decide, by decide, fun algorithm => ?_⟩
  rw [HeldToBurst, admitted_there_and_back]
  exact Nat.not_succ_le_self 1

/-- What is admitted there beyond the burst is no more than the quota gives on the way forward. -/
theorem not_heldToBurst_onePerSecond :
    [Instant.epoch, Instant.second].all (·.nanos ≤ Instant.second.nanos) ∧
      Quota.onePerSecond.burst.toNat < 2 ^ (53 : ℕ) ∧
      ¬ [Instant.second, Instant.epoch, Instant.second].Pairwise (fun t u => u.nanos ≤ t.nanos) ∧
      ¬ HeldToBurst ⟨.tokenBucket, .onePerSecond⟩ .second [.epoch, .second] ∧
      (2 : ℕ) ≤ Quota.onePerSecond.burst.toNat +
        Quota.onePerSecond.exactRate * forwardSeconds .second [.epoch, .second] * (1 + 1 / 2 ^ 50) +
        (3 : ℕ) * (1 / 2 ^ 51) * (Quota.onePerSecond.burst.toNat + 1) + 1 / 10 ^ 9 := by
  have bound := ((heldToBurst_iff .tokenBucket).2 .onePerSecond (by decide)).2 .second
    [.epoch, .second] (by decide)
  rw [admitted_there_and_back] at bound
  refine ⟨by decide, by decide, by decide, ?_, bound⟩
  rw [HeldToBurst, admitted_there_and_back]
  decide

end Bucket

end Admission
