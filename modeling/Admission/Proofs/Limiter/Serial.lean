import Mathlib.Data.Fintype.Basic
import Admission.Proofs.Bucket.Standstill
import Admission.Proofs.Limiter.Interleaving

/-!
# Interleaved operations in a serial order

However operations are interleaved and dropped, each key fares as if its completed operations had been
executed one after the other. A lock held alone keeps what an operation has loaded true until it writes,
so the effect of each operation can be put in one place: a grant and a clear where they change the store,
a preview where it lets go of its lock.

## Main definitions

* `executed`: operations executed one after the other.
* `Interleaving.Serialized`: an order in which the completed operations of a key can be executed.
* `Interleaving.Consistent`: the invariant of all interleavings.

## Main results

* `Interleaving.Consistent.step`, `Interleaving.Reachable.consistent`: the invariant holds.
* `Interleaving.serializable`: the serial order, and how many grants of a new key are admitted.
-/

namespace Admission

-- Powers of natural numbers are the core library's, whatever else is in scope.
attribute [local instance (high)] instPowNat

/-- Executes operations one after the other, each at its reading of the clock. -/
def executed (b : Bucket) :
    List (Operation × Instant) → MemoryStore → List (Except StoreError Answer) × MemoryStore
  | [], s => ([], s)
  | (op, now) :: rest, s =>
    let first := (op.plan b now).runOn s
    let later := executed b rest first.2
    (first.1 :: later.1, later.2)

theorem executed_concat (b : Bucket) (ops : List (Operation × Instant)) (op : Operation) (now : Instant)
    (s : MemoryStore) :
    executed b (ops ++ [(op, now)]) s =
      ((executed b ops s).1 ++ [((op.plan b now).runOn (executed b ops s).2).1],
        ((op.plan b now).runOn (executed b ops s).2).2) := by
  induction ops generalizing s with
  | nil => rfl
  | cons first rest ih => simp [executed, ih]

/-- An operation that has an outcome, with the reading that it took and its answer. -/
structure Completed (ι : Type*) where
  index : ι
  now : Instant
  answer : Answer

namespace Interleaving

variable {ι : Type*} (b : Bucket) (lockOf : String → ℕ) (ops : ι → Operation) (start : MemoryStore)

/-- The outcome of an operation in a world. -/
def outcome? (w : World ι) (i : ι) : Option (Instant × Answer) := (w.phase i).outcome? (ops i)

/-- The operations of a key that have an outcome, executed in this order, give their answers and leave
what the store keeps for the key. -/
structure Serialized (w : World ι) (key : String) (order : List (Completed ι)) : Prop where
  nodup : (order.map (·.index)).Nodup
  mem_iff : ∀ i now answer, ⟨i, now, answer⟩ ∈ order ↔
    (ops i).key = key ∧ outcome? ops w i = some (now, answer)
  answers : (executed b (order.map fun e => (ops e.index, e.now)) start).1 = order.map (.ok ·.answer)
  left : (executed b (order.map fun e => (ops e.index, e.now)) start).2.get? key = w.store.get? key

/-- What holds however the operations are interleaved. -/
structure Consistent (w : World ι) : Prop where
  exclusion : Exclusion lockOf ops w.phase
  halfway : ∀ i now plan, w.phase i = .running now plan → outcome? ops w i = none →
    Halfway b (ops i) now (w.store.get? (ops i).key) plan
  serial : ∀ key, ∃ order, Serialized b ops start w key order

variable {b lockOf ops start} {w w' : World ι} {key : String} {order : List (Completed ι)}

/-- An order stays good while outcomes and the store stay the same for its key. -/
theorem Serialized.congr (h : Serialized b ops start w key order)
    (outcomes : ∀ i, (ops i).key = key → outcome? ops w' i = outcome? ops w i)
    (store : w'.store.get? key = w.store.get? key) : Serialized b ops start w' key order where
  nodup := h.nodup
  mem_iff i now answer := by
    rw [h.mem_iff]
    constructor
    · rintro ⟨same, outcome⟩
      exact ⟨same, (outcomes i same).trans outcome⟩
    · rintro ⟨same, outcome⟩
      exact ⟨same, (outcomes i same).symm.trans outcome⟩
  answers := h.answers
  left := h.left.trans store.symm

/-- An operation that gets an outcome comes last in the order of its key. -/
theorem Serialized.concat {i : ι} {now : Instant} (h : Serialized b ops start w (ops i).key order)
    (before : outcome? ops w i = none)
    (after : outcome? ops w' i =
      some (now, (ops i).answerOn b now (w.store.get? (ops i).key)))
    (others : ∀ j, j ≠ i → outcome? ops w' j = outcome? ops w j)
    (store : w'.store.get? (ops i).key = (ops i).leaves b now (w.store.get? (ops i).key)) :
    Serialized b ops start w' (ops i).key
      (order ++ [⟨i, now, (ops i).answerOn b now (w.store.get? (ops i).key)⟩]) := by
  have fresh : ∀ e ∈ order, e.index ≠ i := by
    intro e member same
    have := (h.mem_iff e.index e.now e.answer).1 member
    rw [same, before] at this
    cases this.2
  -- At the end of the order the operation finds for its key what it finds in the shared store.
  have effect := (ops i).runOn_plan b now (executed b (order.map fun e => (ops e.index, e.now)) start).2
  rw [h.left] at effect
  constructor
  · rw [List.map_append, List.nodup_append]
    refine ⟨h.nodup, List.nodup_singleton _, ?_⟩
    intro j member k last
    obtain ⟨e, inside, rfl⟩ := List.mem_map.1 member
    rw [List.map_singleton, List.mem_singleton] at last
    rw [last]
    exact fresh e inside
  · intro j time answer
    rw [List.mem_append, List.mem_singleton, h.mem_iff, Completed.mk.injEq]
    by_cases same : j = i
    · subst same
      rw [before, after]
      simp [eq_comm]
    · rw [others j same]
      simp [same]
  · rw [List.map_append, List.map_singleton, executed_concat, h.answers, effect.1, List.map_append,
      List.map_singleton]
  · rw [List.map_append, List.map_singleton, executed_concat, store]
    exact (effect.2 _).trans (if_pos rfl)

theorem consistent_start : Consistent b lockOf ops start ⟨start, fun _ => .waiting⟩ where
  exclusion := fun _ _ _ holds => holds.elim
  halfway := by
    intro i now plan running
    cases running
  serial := fun key => ⟨[], {
    nodup := List.nodup_nil
    mem_iff := fun i now answer => by simp [outcome?, Phase.outcome?]
    answers := rfl
    left := rfl }⟩

variable [DecidableEq ι]

theorem outcome?_update_self (store : MemoryStore) (i : ι) (phase : Phase) :
    outcome? ops ⟨store, Function.update w.phase i phase⟩ i = phase.outcome? (ops i) :=
  congrArg (Phase.outcome? (ops i)) (Function.update_self i phase w.phase)

theorem outcome?_update_of_ne (store : MemoryStore) {i j : ι} (apart : j ≠ i) (phase : Phase) :
    outcome? ops ⟨store, Function.update w.phase i phase⟩ j = outcome? ops w j :=
  congrArg (Phase.outcome? (ops j)) (Function.update_of_ne apart phase w.phase)

/-- The invariant is kept when an operation moves on and neither changes the store nor gets an outcome. -/
theorem Consistent.quiet (h : Consistent b lockOf ops start w) {i : ι} {phase : Phase}
    (entitled : phase.Holds → (w.phase i).Holds ∨ Free lockOf ops w.phase i)
    (same : phase.outcome? (ops i) = outcome? ops w i)
    (halfway : ∀ now plan, phase = .running now plan → outcome? ops w i = none →
      Halfway b (ops i) now (w.store.get? (ops i).key) plan) :
    Consistent b lockOf ops start ⟨w.store, Function.update w.phase i phase⟩ where
  exclusion := h.exclusion.update entitled
  halfway := by
    intro j now plan running open'
    by_cases moved : j = i
    · subst moved
      rw [outcome?_update_self, same] at open'
      dsimp only at running
      rw [Function.update_self] at running
      exact halfway now plan running open'
    · rw [outcome?_update_of_ne _ moved] at open'
      dsimp only at running
      rw [Function.update_of_ne moved] at running
      exact h.halfway j now plan running open'
  serial := by
    intro key
    obtain ⟨order, serial⟩ := h.serial key
    refine ⟨order, serial.congr (fun j _ => ?_) rfl⟩
    by_cases moved : j = i
    · subst moved
      rw [outcome?_update_self, same]
    · exact outcome?_update_of_ne _ moved phase

/-- The invariant is kept when an operation gets its outcome and makes its change, if nobody else holds
the lock of a key that changes. -/
theorem Consistent.conclude (h : Consistent b lockOf ops start w) {i : ι} {phase : Phase} {now : Instant}
    {store : MemoryStore} (entitled : phase.Holds → (w.phase i).Holds ∨ Free lockOf ops w.phase i)
    (before : outcome? ops w i = none)
    (after : phase.outcome? (ops i) =
      some (now, (ops i).answerOn b now (w.store.get? (ops i).key)))
    (effect : ∀ key, store.get? key =
      if key = (ops i).key then (ops i).leaves b now (w.store.get? (ops i).key) else w.store.get? key)
    (kept : ∀ j, j ≠ i → (w.phase j).Holds → store.get? (ops j).key = w.store.get? (ops j).key) :
    Consistent b lockOf ops start ⟨store, Function.update w.phase i phase⟩ where
  exclusion := h.exclusion.update entitled
  halfway := by
    intro j time plan running open'
    by_cases moved : j = i
    · subst moved
      rw [outcome?_update_self, after] at open'
      cases open'
    · rw [outcome?_update_of_ne _ moved] at open'
      dsimp only at running
      rw [Function.update_of_ne moved] at running
      dsimp only
      rw [kept j moved (by rw [running]; trivial)]
      exact h.halfway j time plan running open'
  serial := by
    intro key
    obtain ⟨order, serial⟩ := h.serial key
    -- Only the order of its own key takes the operation in.
    by_cases own : key = (ops i).key
    · subst own
      exact ⟨_, serial.concat before ((outcome?_update_self _ _ _).trans after)
        (fun j apart => outcome?_update_of_ne _ apart phase) ((effect _).trans (if_pos rfl))⟩
    · refine ⟨order, serial.congr (fun j same => ?_) ((effect key).trans (if_neg own))⟩
      refine outcome?_update_of_ne _ (fun moved => own ?_) phase
      rw [← same, moved]

/-- The invariant is kept when a call of an operation takes effect: one that only looks changes nothing, and
one that writes has the lock of its key to itself. -/
theorem Consistent.call (h : Consistent b lockOf ops start w) {i : ι} {now : Instant} {call : StoreCall}
    {next : Option Standing → Plan} {value : Option Standing} {store : MemoryStore}
    (running : w.phase i = .running now (.ask call next))
    (answers : Store.answer call w.store = (.ok value, store)) :
    Consistent b lockOf ops start ⟨store, Function.update w.phase i (.running now (next value))⟩ := by
  have holds : (w.phase i).Holds := by
    rw [running]
    trivial
  have before : outcome? ops w i = none := by
    rw [outcome?, running]
    rfl
  rcases (h.halfway i now _ running before).call answers with
    ⟨rfl, halfway, quiet⟩ | ⟨exclusive, finish, effect⟩
  · refine h.quiet (fun _ => .inl holds) (quiet.trans before.symm) ?_
    intro time plan same _
    cases same
    exact halfway
  · refine h.conclude (fun _ => .inl holds) before ?_ effect ?_
    · rw [finish, Phase.outcome?, exclusive, if_pos rfl]
    · intro j apart other
      rw [effect, if_neg]
      -- Nobody else who holds a lock has the same key.
      intro same
      have shared := (h.exclusion i j apart.symm holds other (congrArg lockOf same.symm)).1
      rw [exclusive] at shared
      cases shared

/-- The invariant is kept when an operation lets go of its lock: a grant or a clear has had its outcome since it
wrote, and a preview gets its outcome now. -/
theorem Consistent.release (h : Consistent b lockOf ops start w) {i : ι} {now : Instant} {answer : Answer}
    (running : w.phase i = .running now (.finish answer)) :
    Consistent b lockOf ops start ⟨w.store, Function.update w.phase i (.done now answer)⟩ := by
  have gone : (Phase.done now answer).Holds → (w.phase i).Holds ∨ Free lockOf ops w.phase i :=
    fun holds => holds.elim
  cases exclusive : (ops i).isExclusive with
  | true =>
    refine h.quiet gone ?_ (fun _ _ same => by cases same)
    rw [outcome?, running, Phase.outcome?, exclusive, if_pos rfl]
    rfl
  | false =>
    have before : outcome? ops w i = none := by
      rw [outcome?, running, Phase.outcome?, exclusive, if_neg Bool.false_ne_true]
    obtain ⟨-, rfl, unchanged⟩ := (h.halfway i now _ running before).finish
    refine h.conclude gone before rfl ?_ (fun _ _ _ => rfl)
    intro key
    rw [unchanged]
    split
    case isTrue own => rw [own]
    case isFalse => rfl

/-- Every step keeps the invariant. -/
theorem Consistent.step (h : Consistent b lockOf ops start w) (step : Step b lockOf ops w w') :
    Consistent b lockOf ops start w' := by
  cases step with
  | acquire i waiting free =>
    refine h.quiet (fun _ => .inr free) ?_ (fun now plan running => by cases running)
    rw [outcome?, waiting]
    rfl
  | read i now locked =>
    refine h.quiet (fun _ => .inl ?_) ?_ ?_
    · rw [locked]
      trivial
    · rw [outcome?, locked]
      cases ops i <;> rfl
    · intro time plan running _
      cases running
      exact .start
  | call i now call next value store running answers => exact h.call running answers
  | release i now answer running => exact h.release running
  | drop i droppable =>
    refine h.quiet (fun holds => holds.elim) ?_ (fun _ _ same => by cases same)
    exact (Phase.outcome?_of_droppable droppable).symm

/-- The invariant holds however the operations are interleaved. -/
theorem Reachable.consistent (h : Reachable b lockOf ops start w) : Consistent b lockOf ops start w := by
  induction h with
  | refl => exact consistent_start
  | tail _ step ih => exact ih.step step

/-- An operation that waits for a lock that it can be given can be carried through at once. -/
theorem Reachable.complete (h : Reachable b lockOf ops start w) {i : ι} (now : Instant)
    (waiting : w.phase i = .waiting) (free : Free lockOf ops w.phase i) :
    Reachable b lockOf ops start
      ⟨(((ops i).plan b now).runOn w.store).2,
        Function.update w.phase i (.done now ((ops i).answerOn b now (w.store.get? (ops i).key)))⟩ := by
  have locked := h.tail (.acquire w i waiting free)
  have begun := locked.tail (.read _ i now (Function.update_self ..))
  rw [Function.update_idem] at begun
  -- From here on each kind of operation takes the steps of its own plan.
  cases op : ops i with
  | grant key =>
    rw [op, Operation.plan_grant] at begun
    have loaded := begun.tail (.call _ i now _ _ _ _ (Function.update_self ..) (w.store.answer_get key))
    have stored := loaded.tail (.call _ i now _ _ _ _ (Function.update_self ..)
      (w.store.answer_set key _))
    have ended := stored.tail (.release _ i now _ (Function.update_self ..))
    simp only [Function.update_idem] at ended
    exact ended
  | preview key =>
    rw [op] at begun
    have loaded := begun.tail (.call _ i now _ _ _ _ (Function.update_self ..) (w.store.answer_get key))
    have ended := loaded.tail (.release _ i now _ (Function.update_self ..))
    simp only [Function.update_idem] at ended
    exact ended
  | clear key =>
    rw [op] at begun
    have erased := begun.tail (.call _ i now _ _ _ _ (Function.update_self ..)
      (w.store.answer_delete key))
    have ended := erased.tail (.release _ i now _ (Function.update_self ..))
    simp only [Function.update_idem] at ended
    exact ended

end Interleaving

/-! ### Grants of a new key -/

namespace Answer

/-- Whether a grant was answered. -/
def isGrant : Answer → Bool
  | .granted _ => true
  | _ => false

/-- Whether a grant was answered that admits its request. -/
def isAdmission : Answer → Bool
  | .granted decision => decision.allowed
  | _ => false

end Answer

/-- What a store keeps for a key that was used at one reading only: so many of the burst. -/
structure UsedAt (b : Bucket) (now : Instant) (stored : Option Standing) (j : ℕ) : Prop where
  used : b.Used (stored.getD (b.fresh now)) j
  room : j ≤ b.quota.burst.toNat
  last : (stored.getD (b.fresh now)).lastUpdate = now

theorem usedAt_none (b : Bucket) (now : Instant) : UsedAt b now none 0 where
  used := by
    rw [Nat.cast_zero]
    exact (b.account_fresh now).used
  room := Nat.zero_le _
  last := b.fresh_lastUpdate now

variable {b : Bucket} {now : Instant} {j : ℕ}

/-- A grant at the same reading is admitted exactly if the burst is not used up. -/
theorem UsedAt.grant {stored : Option Standing} (small : b.quota.burst.toNat < 2 ^ (53 : ℕ))
    (h : UsedAt b now stored j) (key : String) :
    (((Operation.grant key).answerOn b now stored).isAdmission = true ↔ j < b.quota.burst.toNat) ∧
      UsedAt b now ((Operation.grant key).leaves b now stored) (min (j + 1) b.quota.burst.toNat) := by
  obtain ⟨admission, next⟩ := h.used.decide_still small h.room (by rw [h.last])
  exact ⟨admission, next, min_le_right _ _, b.decide_lastUpdate _ now⟩

/-- Of an operation that clears nothing and the grants after it, as many are admitted as there is room for. -/
theorem UsedAt.step {stored : Option Standing} {op : Operation}
    (small : b.quota.burst.toNat < 2 ^ (53 : ℕ)) (h : UsedAt b now stored j) (keeps : op ≠ .clear op.key) :
    ∃ j', UsedAt b now (op.leaves b now stored) j' ∧ ∀ later : ℕ,
      min later (b.quota.burst.toNat - j') + (if (op.answerOn b now stored).isAdmission then 1 else 0) =
        min (later + if (op.answerOn b now stored).isGrant then 1 else 0) (b.quota.burst.toNat - j) := by
  cases op with
  | grant key =>
    obtain ⟨admission, next⟩ := h.grant small key
    refine ⟨_, next, fun later => ?_⟩
    have grant : ((Operation.grant key).answerOn b now stored).isGrant = true := rfl
    rw [if_pos grant]
    split
    case isTrue admitted =>
      have room := admission.1 admitted
      omega
    case isFalse denied =>
      have full : ¬ j < b.quota.burst.toNat := fun room => denied (admission.2 room)
      omega
  | preview key => exact ⟨j, h, fun _ => rfl⟩
  | clear key => exact absurd rfl keeps

/-- Of grants and previews of one key at one reading, grants are admitted until the burst is used up. -/
theorem countP_executed (small : b.quota.burst.toNat < 2 ^ (53 : ℕ)) (key : String)
    (ops : List (Operation × Instant)) (s : MemoryStore) (h : UsedAt b now (s.get? key) j)
    (still : ∀ e ∈ ops, e.1.key = key ∧ e.1 ≠ .clear key ∧ e.2 = now) (answers : List Answer)
    (given : (executed b ops s).1 = answers.map .ok) :
    answers.countP (·.isAdmission) = min (answers.countP (·.isGrant)) (b.quota.burst.toNat - j) := by
  induction ops generalizing s j answers with
  | nil =>
    rw [List.map_eq_nil_iff.1 given.symm, List.countP_nil, List.countP_nil, Nat.zero_min]
  | cons first rest ih =>
    obtain ⟨op, time⟩ := first
    obtain ⟨own, keeps, rfl⟩ := still _ List.mem_cons_self
    have still := fun e member => still e (List.mem_cons_of_mem _ member)
    dsimp only at own keeps h
    obtain ⟨answer, effect⟩ := op.runOn_plan b time s
    have left := effect key
    rw [own] at answer left
    rw [if_pos rfl] at left
    rw [executed] at given
    cases answers with
    | nil => cases given
    | cons here later =>
      rw [List.map_cons, List.cons.injEq, answer] at given
      obtain ⟨same, given⟩ := given
      cases same
      -- The first operation takes its share of the burst, and the others find what it leaves.
      obtain ⟨j', next, count⟩ := h.step small (own.symm ▸ keeps)
      rw [← left] at next
      rw [List.countP_cons, List.countP_cons, ih _ next still later given, count]

namespace Interleaving

variable {ι : Type*} {ops : ι → Operation} {start : MemoryStore} {w : World ι} {key : String}
  {order : List (Completed ι)}

/-- The operations of a key with an outcome of some kind are as many as there are in its order. -/
theorem Serialized.card_filter [Fintype ι] [DecidableEq ι] (h : Serialized b ops start w key order)
    (kind : Answer → Bool) :
    (Finset.univ.filter fun i =>
      (ops i).key = key ∧ (outcome? ops w i).any fun outcome => kind outcome.2).card =
    (order.map (·.answer)).countP kind := by
  -- No index is in the order twice, so that indices can be counted by entries.
  have nodup : ((order.filter fun e => kind e.answer).map (·.index)).Nodup :=
    h.nodup.sublist (List.filter_sublist.map _)
  have size := List.toFinset_card_of_nodup nodup
  rw [List.length_map] at size
  rw [List.countP_map, List.countP_eq_length_filter]
  refine Eq.trans (congrArg Finset.card ?_) size
  ext i
  simp only [Finset.mem_filter, Finset.mem_univ, true_and, List.mem_toFinset, List.mem_map,
    List.mem_filter]
  constructor
  · rintro ⟨own, outcome⟩
    obtain ⟨⟨time, answer⟩, found, kind⟩ := (Option.any_eq_true _ _).1 outcome
    exact ⟨⟨i, time, answer⟩, ⟨(h.mem_iff i time answer).2 ⟨own, found⟩, kind⟩, rfl⟩
  · rintro ⟨e, ⟨member, kind⟩, rfl⟩
    obtain ⟨own, found⟩ := (h.mem_iff e.index e.now e.answer).1 member
    exact ⟨own, (Option.any_eq_true _ _).2 ⟨_, found, kind⟩⟩

/-- However operations on a store are interleaved, and whichever of them are dropped, each key fares as if
its completed operations had been executed one after the other, each at the reading that it took. A new
key that is granted at one reading only and not cleared admits its completed grants up to the burst. -/
theorem serializable [Fintype ι] [DecidableEq ι] (b : Bucket) (lockOf : String → ℕ) (ops : ι → Operation)
    (start : MemoryStore) (w : World ι) (reachable : Reachable b lockOf ops start w) :
    (∀ key, ∃ order, Serialized b ops start w key order) ∧
    ∀ key now, b.quota.burst.toNat < 2 ^ (53 : ℕ) → start.get? key = none → (∀ i, ops i ≠ .clear key) →
      (∀ i time answer, (ops i).key = key → outcome? ops w i = some (time, answer) → time = now) →
      (Finset.univ.filter fun i =>
        (ops i).key = key ∧ (outcome? ops w i).any fun outcome => outcome.2.isAdmission).card =
      min (Finset.univ.filter fun i =>
        (ops i).key = key ∧ (outcome? ops w i).any fun outcome => outcome.2.isGrant).card
        b.quota.burst.toNat := by
  have serial := reachable.consistent.serial
  refine ⟨serial, fun key now small new keeps still => ?_⟩
  obtain ⟨order, serial⟩ := serial key
  rw [serial.card_filter Answer.isAdmission, serial.card_filter Answer.isGrant]
  have given : (executed b (order.map fun e => (ops e.index, e.now)) start).1 =
      (order.map (·.answer)).map .ok := by
    rw [serial.answers, List.map_map]
    rfl
  have := countP_executed small key _ start (new ▸ usedAt_none b now) ?_ _ given
  · exact this
  · intro entry member
    obtain ⟨e, inside, rfl⟩ := List.mem_map.1 member
    obtain ⟨own, outcome⟩ := (serial.mem_iff e.index e.now e.answer).1 inside
    exact ⟨own, keeps e.index, still e.index e.now e.answer own outcome⟩

/-- Two grants of one key. -/
def twoGrants : Bool → Operation := fun _ => .grant "key"

/-- Of two grants of a new key with a burst of one, one is admitted. -/
theorem serializable_twoGrants :
    ∃ w, Reachable ⟨.tokenBucket, .onePerSecond⟩ (LockScope.sharded 4).lockOf twoGrants .empty w ∧
      Quota.onePerSecond.burst.toNat < 2 ^ (53 : ℕ) ∧ MemoryStore.empty.get? "key" = none ∧
      (∀ i, twoGrants i ≠ .clear "key") ∧
      (∀ i time answer, (twoGrants i).key = "key" → outcome? twoGrants w i = some (time, answer) →
        time = .epoch) ∧
      (Finset.univ.filter fun i => (twoGrants i).key = "key" ∧
        (outcome? twoGrants w i).any fun outcome => outcome.2.isGrant).card = 2 ∧
      (Finset.univ.filter fun i => (twoGrants i).key = "key" ∧
        (outcome? twoGrants w i).any fun outcome => outcome.2.isAdmission).card = 1 := by
  have start : Reachable ⟨.tokenBucket, .onePerSecond⟩ (LockScope.sharded 4).lockOf twoGrants .empty
      ⟨.empty, fun _ => .waiting⟩ := .refl
  have first := start.complete .epoch (i := false) rfl (fun _ holds => holds.elim)
  have second := first.complete .epoch (i := true) rfl (fun j holds => by cases j <;> exact holds.elim)
  -- That both end with a grant is all that is needed of the world that they leave.
  obtain ⟨w, reachable, outcomes⟩ : ∃ w,
      Reachable ⟨.tokenBucket, .onePerSecond⟩ (LockScope.sharded 4).lockOf twoGrants .empty w ∧
        ∀ i, ∃ decision, outcome? twoGrants w i = some (.epoch, .granted decision) :=
    ⟨_, second, fun i => by cases i <;> exact ⟨_, rfl⟩⟩
  have still : ∀ i time answer, (twoGrants i).key = "key" →
      outcome? twoGrants w i = some (time, answer) → time = .epoch := by
    intro i time answer _ outcome
    obtain ⟨decision, given⟩ := outcomes i
    rw [given] at outcome
    cases outcome
    rfl
  have granted : (Finset.univ.filter fun i => (twoGrants i).key = "key" ∧
      (outcome? twoGrants w i).any fun outcome => outcome.2.isGrant).card = 2 := by
    have all : ∀ i ∈ Finset.univ, (twoGrants i).key = "key" ∧
        ((outcome? twoGrants w i).any fun outcome => outcome.2.isGrant) = true := by
      intro i _
      obtain ⟨decision, given⟩ := outcomes i
      rw [given]
      exact ⟨rfl, rfl⟩
    rw [Finset.filter_true_of_mem all]
    rfl
  have count := (serializable _ _ _ _ w reachable).2 "key" .epoch (by decide) rfl
    (fun _ same => by cases same) still
  refine ⟨w, reachable, by decide, rfl, (fun _ same => by cases same), still, granted, ?_⟩
  rw [count, granted]
  rfl

end Interleaving

end Admission
