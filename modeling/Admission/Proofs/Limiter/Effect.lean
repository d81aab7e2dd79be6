import Admission.Limiter.Basic

/-!
# Effects of operations

An operation that is carried through answers from what the store keeps for its key, and changes nothing
but that. An operation that is cut short by its store changes nothing at all.

## Main definitions

* `Operation.answerOn`, `Operation.leaves`: what an operation answers, and what it leaves for its key.
* `Operation.Answers`: what an operation can answer, whatever its store does.
* `Performed.answer?`: what an operation that has ended has answered.

## Main results

* `Operation.runOn_plan`: an operation on a store in memory.
* `Limiter.answers_of_perform`: an operation on any store.
* `Limiter.perform_spec`: an operation on a store in memory whose calls may be late or refused.
-/

namespace Admission

namespace MemoryStore

theorem answer_get (s : MemoryStore) (key : String) :
    Store.answer (.get key) s = (.ok (s.get? key), s) := rfl

theorem answer_set (s : MemoryStore) (key : String) (standing : Standing) :
    Store.answer (.set key standing) s = (.ok none, s.set key standing) := rfl

theorem answer_delete (s : MemoryStore) (key : String) :
    Store.answer (.delete key) s = (.ok none, s.delete key) := rfl

end MemoryStore

namespace Operation

@[simp]
theorem key_grant (key : String) : (grant key).key = key := rfl

@[simp]
theorem key_preview (key : String) : (preview key).key = key := rfl

@[simp]
theorem key_clear (key : String) : (clear key).key = key := rfl

variable (b : Bucket) (now : Instant)

/-- What an operation answers where the store keeps `stored` for its key. -/
def answerOn (stored : Option Standing) : Operation → Answer
  | .grant _ => .granted (b.decide (stored.getD (b.fresh now)) now).1
  | .preview _ => .previewed (b.preview (stored.getD (b.fresh now)) now)
  | .clear _ => .cleared

/-- What an operation leaves for its key where the store keeps `stored` for it. -/
def leaves (stored : Option Standing) : Operation → Option Standing
  | .grant _ => some (b.decide (stored.getD (b.fresh now)) now).2
  | .preview _ => stored
  | .clear _ => none

theorem plan_grant (key : String) :
    (Operation.grant key).plan b now = .ask (.get key) fun stored =>
      .ask (.set key (b.decide (stored.getD (b.fresh now)) now).2) fun _ =>
        .finish (.granted (b.decide (stored.getD (b.fresh now)) now).1) := rfl

/-- An operation on a store in memory answers from the standing of its key and changes only that. -/
theorem runOn_plan (op : Operation) (s : MemoryStore) :
    ((op.plan b now).runOn s).1 = .ok (op.answerOn b now (s.get? op.key)) ∧
      ∀ key, ((op.plan b now).runOn s).2.get? key =
        if key = op.key then op.leaves b now (s.get? op.key) else s.get? key := by
  cases op with
  | grant key => exact ⟨rfl, fun other => s.get?_set key other _⟩
  | preview key =>
    refine ⟨rfl, fun other => ?_⟩
    change s.get? other = if other = key then s.get? key else s.get? other
    split
    case isTrue same => rw [same]
    case isFalse => rfl
  | clear key => exact ⟨rfl, fun other => s.get?_delete key other⟩

end Operation

/-! ### Operations on any store -/

/-- What an operation can answer: a decision on a grant, and a look at the credits on a preview. -/
def Operation.Answers : Operation → Answer → Prop
  | .grant _, .granted _ | .preview _, .previewed _ | .clear _, .cleared => True
  | _, _ => False

/-- The answers that a plan can end with. -/
def Plan.Ends (p : Answer → Prop) : Plan → Prop
  | .finish answer => p answer
  | .ask _ next => ∀ value, (next value).Ends p

theorem Operation.plan_ends (b : Bucket) (now : Instant) (op : Operation) : (op.plan b now).Ends op.Answers := by
  cases op with
  | grant key => exact fun _ _ => trivial
  | preview key => exact fun _ => trivial
  | clear key => exact fun _ => trivial

/-- A plan that is answered ends with one of its answers. -/
theorem Plan.Ends.answered {σ : Type} [Store σ] [Timer] {p : Answer → Prop} {plan : Plan} (ends : plan.Ends p)
    {limit : Option Duration} {moment : Nat} {s : Scripted σ} {waits : List Nat} {answer : Answer}
    (answered : (plan.perform limit moment s waits).ending = some (.answered answer)) : p answer := by
  induction plan generalizing moment s waits with
  | finish given =>
    cases answered
    exact ends
  | ask call next ih =>
    rw [perform] at answered
    dsimp only at answered
    split at answered
    · cases answered
    · cases answered
    · split at answered
      · cases answered
      · exact ih _ (ends _) answered

/-- An operation that is answered gets one of its answers. -/
theorem Limiter.answers_of_perform {σ : Type} [Store σ] [Timer] (l : Limiter) {op : Operation}
    {own : Option Duration} {now : Instant} {moment : Nat} {s : Scripted σ} {answer : Answer}
    (answered : (l.perform op own now moment s).ending = some (.answered answer)) : op.Answers answer :=
  (op.plan_ends l.bucket now).answered answered

/-! ### Calls that may fail -/

section Scripted

variable {σ : Type} [Store σ]

omit [Store σ] in
/-- That a call begins changes nothing in the store behind the script. -/
theorem Scripted.begin_inner (s : Scripted σ) (call : StoreCall) :
    (s.begin call).2.inner = s.inner := by
  simp only [begin]
  split <;> rfl

/-- What an operation that has ended has answered. -/
def Performed.answer? (p : Performed σ) : Option Answer :=
  match p.ending with
  | some (.answered answer) => some answer
  | _ => none

/-- A call that the store would answer either cuts its plan short and changes nothing, or is made. -/
theorem Plan.perform_ask [Timer] {call : StoreCall} {next : Option Standing → Plan}
    {limit : Option Duration} {moment : Nat} {s : Scripted σ} {waits : List Nat} {value : Option Standing}
    {inner : σ} (answers : Store.answer call s.inner = (.ok value, inner)) :
    (((Plan.ask call next).perform limit moment s waits).answer? = none ∧
      ((Plan.ask call next).perform limit moment s waits).store.inner = s.inner) ∨
    ∃ moment' later waited, later.inner = inner ∧
      (Plan.ask call next).perform limit moment s waits = (next value).perform limit moment' later waited := by
  have begun := s.begin_inner call
  cases hb : s.begin call with
  | mk course later =>
    rw [hb] at begun
    dsimp only at begun
    -- Only an answer that is waited for and is no refusal lets the plan go on.
    cases hw : course.wait moment limit with
    | forever => exact .inl (by simpa [Plan.perform, hb, hw, Performed.answer?] using begun)
    | gaveUp after limit => exact .inl (by simpa [Plan.perform, hb, hw, Performed.answer?] using begun)
    | answered after =>
      cases hr : course.refusal with
      | some words =>
        exact .inl (by simpa [Plan.perform, hb, hw, Scripted.finish, hr, Performed.answer?] using begun)
      | none =>
        refine .inr ⟨moment + after, { later with inner }, if after = 0 then waits else waits ++ [after], rfl, ?_⟩
        simp [Plan.perform, hb, hw, Scripted.finish, hr, begun, answers]

end Scripted

namespace Limiter

variable [Timer] (l : Limiter)

/-- On a store in memory whose calls may be late or refused, an operation either gives no answer and
changes nothing, or answers and leaves what it would without a script. -/
theorem perform_spec (op : Operation) (own : Option Duration) (now : Instant) (moment : Nat)
    (s : Scripted MemoryStore) :
    ((l.perform op own now moment s).answer? = none ∧
      (l.perform op own now moment s).store.inner = s.inner) ∨
    ((l.perform op own now moment s).answer? = some (op.answerOn l.bucket now (s.inner.get? op.key)) ∧
      ∀ key, (l.perform op own now moment s).store.inner.get? key =
        if key = op.key then op.leaves l.bucket now (s.inner.get? op.key) else s.inner.get? key) := by
  have effect := (op.runOn_plan l.bucket now s.inner).2
  rw [perform]
  -- Each call of the plan either ends it there or is answered as the store in memory answers it.
  cases op with
  | grant key =>
    rw [Operation.plan_grant]
    rcases Plan.perform_ask (s.inner.answer_get key) with cut | ⟨_, loaded, waited, same, go⟩
    · exact .inl cut
    rw [go]
    rcases Plan.perform_ask (loaded.inner.answer_set key _) with ⟨cut, kept⟩ | ⟨_, stored, waited, left, go⟩
    · exact .inl ⟨cut, kept.trans same⟩
    · rw [same] at left
      rw [go]
      refine .inr ⟨rfl, fun other => ?_⟩
      rw [← effect]
      exact congrArg (MemoryStore.get? · other) left
  | preview key =>
    rw [Operation.plan]
    rcases Plan.perform_ask (s.inner.answer_get key) with cut | ⟨_, loaded, waited, same, go⟩
    · exact .inl cut
    · rw [go]
      refine .inr ⟨rfl, fun other => ?_⟩
      rw [← effect]
      exact congrArg (MemoryStore.get? · other) same
  | clear key =>
    rw [Operation.plan]
    rcases Plan.perform_ask (s.inner.answer_delete key) with cut | ⟨_, erased, waited, left, go⟩
    · exact .inl cut
    · rw [go]
      refine .inr ⟨rfl, fun other => ?_⟩
      rw [← effect]
      exact congrArg (MemoryStore.get? · other) left

end Limiter

end Admission
