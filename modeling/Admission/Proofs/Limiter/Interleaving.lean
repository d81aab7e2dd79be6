import Mathlib.Data.Nat.Notation
import Mathlib.Logic.Function.Basic
import Mathlib.Logic.Relation
import Admission.Proofs.Limiter.Effect

/-!
# Interleaved operations

Operations on one store take their steps in any order that the locks of their keys admit: a grant or a
clear needs the lock of its key for itself, previews share it. An operation may be dropped at any step
before the one in which its change to the store takes effect, and lets go of its lock then.

## Main definitions

* `Phase`, `World`: how far an operation has come, and all operations with the store.
* `Interleaving.Step`: what can happen next.
* `Phase.outcome?`: the answer that an operation can no longer fail to give.
* `Halfway`: where an operation can be that has no outcome yet.

## Main results

* `Halfway.call`: a store call either only looks, or is the effect of its operation.
* `Interleaving.Exclusion.update`: the locks keep a grant or a clear of a key to itself.
-/

namespace Admission

/-- How far an operation has come. -/
inductive Phase
  | waiting
  /-- It holds the lock of its key, and has not read the clock yet. -/
  | locked
  /-- It holds the lock of its key and follows the plan that it made at a reading of the clock. -/
  | running (now : Instant) (plan : Plan)
  | done (now : Instant) (answer : Answer)
  | dropped

namespace Phase

/-- Whether an operation holds the lock of its key. -/
def Holds : Phase → Prop
  | .locked | .running .. => True
  | _ => False

/-- The answer that an operation can no longer fail to give, with the reading that it took: it has been
given, or the change that goes with it has taken effect. -/
def outcome? (op : Operation) : Phase → Option (Instant × Answer)
  | .running now (.finish answer) => if op.isExclusive then some (now, answer) else none
  | .done now answer => some (now, answer)
  | _ => none

/-- Whether an operation is under way and its change has not taken effect. -/
def Droppable (op : Operation) : Phase → Prop
  | .waiting | .locked | .running _ (.ask ..) => True
  | .running _ (.finish _) => op.isExclusive = false
  | _ => False

theorem outcome?_of_droppable {op : Operation} {phase : Phase} (h : phase.Droppable op) :
    phase.outcome? op = none := by
  cases phase with
  | running now plan =>
    cases plan with
    | ask call next => rfl
    | finish answer =>
      have shared : op.isExclusive = false := h
      rw [outcome?, shared, if_neg Bool.false_ne_true]
  | done now answer => cases h
  | _ => rfl

end Phase

/-- Operations under way, and the store that they share. -/
structure World (ι : Type*) where
  store : MemoryStore
  phase : ι → Phase

/-! ### Halfway -/

/-- The plans that an operation can be left with before it has an outcome, where the store keeps `stored`
for its key: the whole plan, the change that is still to be made, or the answer of a preview. -/
inductive Halfway (b : Bucket) (op : Operation) (now : Instant) (stored : Option Standing) : Plan → Prop
  | start : Halfway b op now stored (op.plan b now)
  | loaded (key : String) (grant : op = .grant key) (next : Standing)
    (left : op.leaves b now stored = some next) :
    Halfway b op now stored (.ask (.set key next) fun _ => .finish (op.answerOn b now stored))
  | seen (key : String) (preview : op = .preview key) :
    Halfway b op now stored (.finish (op.answerOn b now stored))

variable {b : Bucket} {op : Operation} {now : Instant}

/-- A store call of an operation either only looks, or is the change that the operation makes. -/
theorem Halfway.call {s s' : MemoryStore} {call : StoreCall} {next : Option Standing → Plan}
    {value : Option Standing} (h : Halfway b op now (s.get? op.key) (.ask call next))
    (answers : Store.answer call s = (.ok value, s')) :
    (s' = s ∧ Halfway b op now (s.get? op.key) (next value) ∧
      (Phase.running now (next value)).outcome? op = none) ∨
    (op.isExclusive = true ∧ next value = .finish (op.answerOn b now (s.get? op.key)) ∧
      ∀ key, s'.get? key = if key = op.key then op.leaves b now (s.get? op.key) else s.get? key) := by
  -- How far the plan has come says which call is next.
  generalize plan : Plan.ask call next = p at h
  cases h with
  | start =>
    cases op with
    | grant key =>
      rw [Operation.plan_grant] at plan
      cases plan
      cases answers
      exact .inl ⟨rfl, .loaded key rfl _ rfl, rfl⟩
    | preview key =>
      cases plan
      cases answers
      exact .inl ⟨rfl, .seen key rfl, rfl⟩
    | clear key =>
      cases plan
      cases answers
      exact .inr ⟨rfl, rfl, fun other => s.get?_delete key other⟩
  | loaded key grant standing left =>
    subst grant
    cases plan
    cases answers
    refine .inr ⟨rfl, rfl, fun other => ?_⟩
    rw [left]
    exact s.get?_set key other standing
  | seen => cases plan

/-- A preview that has looked answers from what the store keeps. -/
theorem Halfway.finish {stored : Option Standing} {answer : Answer}
    (h : Halfway b op now stored (.finish answer)) :
    op.isExclusive = false ∧ answer = op.answerOn b now stored ∧ op.leaves b now stored = stored := by
  generalize plan : Plan.finish answer = p at h
  cases h with
  | start => cases op <;> cases plan
  | loaded => cases plan
  | seen key preview =>
    subst preview
    cases plan
    exact ⟨rfl, rfl, rfl⟩

namespace Interleaving

variable {ι : Type*} (b : Bucket) (lockOf : String → ℕ) (ops : ι → Operation)

/-- Whether the lock of an operation's key can be given to it, besides those that hold it. -/
def Free (phases : ι → Phase) (i : ι) : Prop :=
  ∀ j, (phases j).Holds → lockOf (ops j).key = lockOf (ops i).key →
    (ops j).isExclusive = false ∧ (ops i).isExclusive = false

/-- Two operations that hold one lock only look. -/
def Exclusion (phases : ι → Phase) : Prop :=
  ∀ i j, i ≠ j → (phases i).Holds → (phases j).Holds → lockOf (ops i).key = lockOf (ops j).key →
    (ops i).isExclusive = false ∧ (ops j).isExclusive = false

variable [DecidableEq ι]

/-- What can happen next. A call of an operation takes effect as a whole. -/
inductive Step : World ι → World ι → Prop
  | acquire (w : World ι) (i : ι) (waiting : w.phase i = .waiting) (free : Free lockOf ops w.phase i) :
    Step w ⟨w.store, Function.update w.phase i .locked⟩
  | read (w : World ι) (i : ι) (now : Instant) (locked : w.phase i = .locked) :
    Step w ⟨w.store, Function.update w.phase i (.running now ((ops i).plan b now))⟩
  | call (w : World ι) (i : ι) (now : Instant) (call : StoreCall) (next : Option Standing → Plan)
    (value : Option Standing) (store : MemoryStore)
    (running : w.phase i = .running now (.ask call next))
    (answers : Store.answer call w.store = (.ok value, store)) :
    Step w ⟨store, Function.update w.phase i (.running now (next value))⟩
  | release (w : World ι) (i : ι) (now : Instant) (answer : Answer)
    (running : w.phase i = .running now (.finish answer)) :
    Step w ⟨w.store, Function.update w.phase i (.done now answer)⟩
  | drop (w : World ι) (i : ι) (droppable : (w.phase i).Droppable (ops i)) :
    Step w ⟨w.store, Function.update w.phase i .dropped⟩

/-- The worlds that operations can get to from a store, where all of them wait at first. -/
def Reachable (start : MemoryStore) : World ι → Prop :=
  Relation.ReflTransGen (Step b lockOf ops) ⟨start, fun _ => .waiting⟩

variable {lockOf ops} {phases : ι → Phase}

/-- Exclusion is kept when an operation moves on, unless it takes a lock that it cannot be given. -/
theorem Exclusion.update (h : Exclusion lockOf ops phases) {i : ι} {phase : Phase}
    (entitled : phase.Holds → (phases i).Holds ∨ Free lockOf ops phases i) :
    Exclusion lockOf ops (Function.update phases i phase) := by
  -- It is enough to compare the operation that moves with one that does not.
  have moved {j : ι} (apart : i ≠ j) (holds : phase.Holds) (other : (phases j).Holds)
      (lock : lockOf (ops i).key = lockOf (ops j).key) :
      (ops i).isExclusive = false ∧ (ops j).isExclusive = false := by
    rcases entitled holds with before | free
    · exact h i j apart before other lock
    · exact (free j other lock.symm).symm
  intro j k apart first second lock
  by_cases left : j = i
  · subst left
    rw [Function.update_self] at first
    rw [Function.update_of_ne apart.symm] at second
    exact moved apart first second lock
  · rw [Function.update_of_ne left] at first
    by_cases right : k = i
    · subst right
      rw [Function.update_self] at second
      exact (moved apart.symm second first lock.symm).symm
    · rw [Function.update_of_ne right] at second
      exact h j k apart first second lock

end Interleaving

end Admission
