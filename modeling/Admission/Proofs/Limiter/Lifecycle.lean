import Mathlib.Data.List.DropRight
import Admission.Proofs.Bucket.Account
import Admission.Proofs.Limiter.Effect

/-!
# The life of a key

A limiter over a store in memory treats each key as if nothing but the key's own successful grants since
it was last cleared had ever happened. Previews, operations that failed and operations on other keys are
forgotten, and so is everything before the key was cleared.

## Main definitions

* `Limiter.serve`: operations one after the other, each with what it answered.
* `readings`: when a key was granted since it was last cleared.
* `Bucket.standingOf`: the standing that grants at given readings leave.

## Main results

* `Reflects.perform`: one operation keeps the store in step with what was answered.
* `Limiter.serve_refines`: every answer, and what the store keeps at the end.
* `Limiter.answer_eq_of_readings_eq`: no answer depends on anything else.
-/

namespace Admission

/-- An operation that is asked for, with its own limit on store calls, the clock's reading at it and the moment
at which it begins. -/
structure Ask where
  op : Operation
  own : Option Duration
  now : Instant
  moment : Nat
  deriving DecidableEq

/-- What was asked for and what was answered; nothing is answered by an operation that failed. -/
abbrev History := List (Ask × Option Answer)

/-- Carries operations out one after the other. -/
def Limiter.serve {σ : Type} [Store σ] [Timer] (l : Limiter) : List Ask → Scripted σ → History × Scripted σ
  | [], s => ([], s)
  | ask :: rest, s =>
    let p := l.perform ask.op ask.own ask.now ask.moment s
    let served := l.serve rest p.store
    ((ask, p.answer?) :: served.1, served.2)

/-- Whether a key was cleared. -/
def clears (key : String) (entry : Ask × Option Answer) : Bool :=
  entry.1.op = .clear key && entry.2.isSome

/-- The reading at which a key was granted. -/
def grantedAt? (key : String) (entry : Ask × Option Answer) : Option Instant :=
  if entry.1.op = .grant key ∧ entry.2.isSome = true then some entry.1.now else none

/-- The readings at which a key was granted since it was last cleared. -/
def readings (key : String) (past : History) : List Instant :=
  (past.rtakeWhile fun entry => !clears key entry).filterMap (grantedAt? key)

/-- The standing that grants at the given readings leave; none without any. -/
def Bucket.standingOf (b : Bucket) : List Instant → Option Standing
  | [] => none
  | first :: later => some (b.standingAfter (b.fresh first) (first :: later))

/-! ### One operation -/

variable {key : String} {past : History}

@[simp]
theorem readings_nil (key : String) : readings key [] = [] := rfl

theorem readings_concat (entry : Ask × Option Answer) :
    readings key (past ++ [entry]) =
      if clears key entry then [] else readings key past ++ (grantedAt? key entry).toList := by
  rw [readings, List.rtakeWhile_concat]
  cases clears key entry with
  | true => simp
  | false => cases h : grantedAt? key entry <;> simp [readings, h]

/-- An operation that failed leaves the readings as they were. -/
theorem readings_concat_none (ask : Ask) : readings key (past ++ [(ask, none)]) = readings key past := by
  simp [readings_concat, clears, grantedAt?]

theorem readings_concat_grant {ask : Ask} {answer : Answer} {other : String}
    (grant : ask.op = .grant other) :
    readings key (past ++ [(ask, some answer)]) =
      if key = other then readings key past ++ [ask.now] else readings key past := by
  rw [readings_concat, clears, grantedAt?, grant]
  by_cases same : key = other
  · simp [same]
  · simp [same, Ne.symm same]

theorem readings_concat_preview {ask : Ask} {answer : Answer} {other : String}
    (preview : ask.op = .preview other) :
    readings key (past ++ [(ask, some answer)]) = readings key past := by
  simp [readings_concat, clears, grantedAt?, preview]

theorem readings_concat_clear {ask : Ask} {answer : Answer} {other : String}
    (clear : ask.op = .clear other) :
    readings key (past ++ [(ask, some answer)]) = if key = other then [] else readings key past := by
  rw [readings_concat, clears, grantedAt?, clear]
  by_cases same : key = other
  · simp [same]
  · simp [same, Ne.symm same]

/-- What failed, what only looked and what was about another key are left out of the readings. -/
theorem readings_of_irrelevant {entry : Ask × Option Answer} (after : History)
    (irrelevant : entry.2 = none ∨ (∃ other, entry.1.op = .preview other) ∨ entry.1.op.key ≠ key) :
    readings key (past ++ entry :: after) = readings key (past ++ after) := by
  -- Readings are taken from the end of the past, so the induction is on what came after.
  induction after using List.reverseRecOn with
  | nil =>
    obtain ⟨ask, answer⟩ := entry
    rw [List.append_nil]
    cases answer with
    | none => exact readings_concat_none ask
    | some answer =>
      rcases irrelevant with failed | ⟨other, preview⟩ | apart
      · cases failed
      · exact readings_concat_preview preview
      · cases op : ask.op with
        | grant other =>
          dsimp only at apart
          rw [op, Operation.key_grant] at apart
          rw [readings_concat_grant op, if_neg apart.symm]
        | preview other => exact readings_concat_preview op
        | clear other =>
          dsimp only at apart
          rw [op, Operation.key_clear] at apart
          rw [readings_concat_clear op, if_neg apart.symm]
  | append_singleton after last ih =>
    rw [← List.cons_append, ← List.append_assoc, readings_concat, ih, ← List.append_assoc,
      readings_concat]

/-- What came before a key was cleared is left out of its readings. -/
theorem readings_of_clear {ask : Ask} {answer : Answer} (after : History) (clear : ask.op = .clear key) :
    readings key (past ++ (ask, some answer) :: after) = readings key after := by
  induction after using List.reverseRecOn with
  | nil => rw [readings_concat_clear clear, if_pos rfl, readings_nil]
  | append_singleton after last ih =>
    rw [← List.cons_append, ← List.append_assoc, readings_concat, ih, readings_concat]

namespace Bucket

variable (b : Bucket)

/-- One more grant is decided on the standing that those before it left, or else on a fresh one. -/
theorem standingOf_concat (times : List Instant) (now : Instant) :
    b.standingOf (times ++ [now]) =
      some (b.decide ((b.standingOf times).getD (b.fresh now)) now).2 := by
  cases times with
  | nil => simp [standingOf, standingAfter]
  | cons first later =>
    rw [List.cons_append, standingOf, ← List.cons_append, standingAfter_concat, standingOf,
      Option.getD_some]

theorem isSome_standingOf (times : List Instant) :
    (b.standingOf times).isSome = true ↔ times ≠ [] := by
  cases times <;> simp [standingOf]

theorem standingAfter_created (s : Standing) (times : List Instant) :
    (b.standingAfter s times).created = s.created := by
  induction times generalizing s with
  | nil => rfl
  | cons now later ih => exact (ih _).trans (b.decide_created s now)

end Bucket

/-- An operation that was answered changes the readings of its key as it changes the key's standing. -/
theorem standingOf_readings_concat (b : Bucket) (ask : Ask) (answer : Answer) :
    b.standingOf (readings key (past ++ [(ask, some answer)])) =
      if key = ask.op.key then ask.op.leaves b ask.now (b.standingOf (readings ask.op.key past))
      else b.standingOf (readings key past) := by
  cases op : ask.op with
  | grant other =>
    rw [readings_concat_grant op, Operation.key_grant]
    by_cases same : key = other
    · subst same
      rw [if_pos rfl, if_pos rfl, b.standingOf_concat]
      rfl
    · rw [if_neg same, if_neg same]
  | preview other =>
    rw [readings_concat_preview op, Operation.key_preview]
    by_cases same : key = other
    · subst same
      exact (if_pos rfl).symm
    · exact (if_neg same).symm
  | clear other =>
    rw [readings_concat_clear op, Operation.key_clear]
    by_cases same : key = other
    · subst same
      rw [if_pos rfl, if_pos rfl]
      rfl
    · rw [if_neg same, if_neg same]

/-- The store keeps for each key what its grants since it was last cleared leave. -/
def Reflects (b : Bucket) (past : History) (s : MemoryStore) : Prop :=
  ∀ key, s.get? key = b.standingOf (readings key past)

theorem reflects_empty (b : Bucket) : Reflects b [] .empty := fun _ => rfl

section Timer

variable [Timer] {l : Limiter}

/-- One operation keeps the store in step with the history, and answers from it. -/
theorem Reflects.perform {s : Scripted MemoryStore} (h : Reflects l.bucket past s.inner) (ask : Ask) :
    Reflects l.bucket (past ++ [(ask, (l.perform ask.op ask.own ask.now ask.moment s).answer?)])
        (l.perform ask.op ask.own ask.now ask.moment s).store.inner ∧
      ∀ answer, (l.perform ask.op ask.own ask.now ask.moment s).answer? = some answer →
        answer = ask.op.answerOn l.bucket ask.now (l.bucket.standingOf (readings ask.op.key past)) := by
  rcases l.perform_spec ask.op ask.own ask.now ask.moment s with ⟨cut, kept⟩ | ⟨answered, left⟩
  · rw [cut, kept]
    constructor
    · intro key
      rw [readings_concat_none]
      exact h key
    · intro answer given
      cases given
  · rw [h ask.op.key] at answered left
    rw [answered]
    constructor
    · intro key
      rw [left, h key, standingOf_readings_concat]
    · intro answer given
      exact (Option.some.inj given).symm

/-! ### Runs -/

/-- A run keeps the store in step with the history, and every answer is given from the history that came
before it. -/
theorem Reflects.serve {s : Scripted MemoryStore} (h : Reflects l.bucket past s.inner)
    (asks : List Ask) :
    Reflects l.bucket (past ++ (l.serve asks s).1) (l.serve asks s).2.inner ∧
      ∀ before ask answer after, (l.serve asks s).1 = before ++ (ask, some answer) :: after →
        answer = ask.op.answerOn l.bucket ask.now
          (l.bucket.standingOf (readings ask.op.key (past ++ before))) := by
  induction asks generalizing past s with
  | nil =>
    constructor
    · rw [Limiter.serve, List.append_nil]
      exact h
    · intro before ask answer after split
      simp [Limiter.serve] at split
  | cons first rest ih =>
    -- The past grows at its end as operations are taken from the front.
    obtain ⟨next, given⟩ := h.perform first
    obtain ⟨last, answers⟩ := ih next
    rw [Limiter.serve]
    constructor
    · rw [List.append_assoc] at last
      exact last
    · intro before ask answer after split
      cases before with
      | nil =>
        rw [List.nil_append, List.cons.injEq, Prod.mk.injEq] at split
        obtain ⟨⟨rfl, answered⟩, -⟩ := split
        rw [List.append_nil]
        exact given answer answered
      | cons entry before =>
        rw [List.cons_append, List.cons.injEq] at split
        obtain ⟨rfl, split⟩ := split
        have := answers before ask answer after split
        rwa [List.append_assoc] at this

/-- No answer depends on anything but the grants of its key since it was last cleared: two limiters with
one bucket answer an operation alike after any two pasts in which these came at the same readings. -/
theorem Limiter.answer_eq_of_readings_eq {l l' : Limiter} (same : l.bucket = l'.bucket)
    {asks asks' : List Ask} {s s' : Scripted MemoryStore} (start : s.inner = .empty)
    (start' : s'.inner = .empty) {before before' after after' : History} {ask ask' : Ask}
    {answer answer' : Answer} (run : (l.serve asks s).1 = before ++ (ask, some answer) :: after)
    (run' : (l'.serve asks' s').1 = before' ++ (ask', some answer') :: after')
    (op : ask.op = ask'.op) (now : ask.now = ask'.now)
    (past : readings ask.op.key before = readings ask.op.key before') : answer = answer' := by
  have first := (Reflects.serve (start ▸ reflects_empty l.bucket) asks).2 before ask answer after run
  have second := (Reflects.serve (start' ▸ reflects_empty l'.bucket) asks').2 before' ask' answer' after' run'
  rw [List.nil_append] at first second
  rw [first, second, same, past, op, now]

/-- Every successful operation answers from the standing that the successful grants of its key since the
key was last cleared leave, or else from a fresh one; the store keeps that standing and no other; and
what failed, what only looked, what was about another key and what came before a clear has no part in
it. -/
theorem Limiter.serve_refines (l : Limiter) (asks : List Ask) (s : Scripted MemoryStore)
    (start : s.inner = .empty) :
    (∀ before ask answer after, (l.serve asks s).1 = before ++ (ask, some answer) :: after →
      answer = ask.op.answerOn l.bucket ask.now (l.bucket.standingOf (readings ask.op.key before))) ∧
    (∀ key, ((l.serve asks s).2.inner.get? key).isSome = true ↔ readings key (l.serve asks s).1 ≠ []) ∧
    (∀ key first later, readings key (l.serve asks s).1 = first :: later →
      ∃ standing, (l.serve asks s).2.inner.get? key = some standing ∧
        standing = l.bucket.standingAfter (l.bucket.fresh first) (first :: later) ∧
        standing.created = first) ∧
    (∀ key before entry after,
      entry.2 = none ∨ (∃ other, entry.1.op = .preview other) ∨ entry.1.op.key ≠ key →
      readings key (before ++ entry :: after) = readings key (before ++ after)) ∧
    ∀ key before ask answer after, ask.op = .clear key →
      readings key (before ++ (ask, some answer) :: after) = readings key after := by
  obtain ⟨kept, answers⟩ := (start ▸ reflects_empty l.bucket : Reflects l.bucket [] s.inner).serve asks
  rw [List.nil_append] at kept
  refine ⟨answers, fun key => ?_, fun key first later granted => ?_,
    fun _ _ _ after irrelevant => readings_of_irrelevant after irrelevant,
    fun _ _ _ _ after clear => readings_of_clear after clear⟩
  · rw [kept key]
    exact l.bucket.isSome_standingOf _
  · refine ⟨_, by rw [kept key, granted, Bucket.standingOf], rfl, ?_⟩
    rw [l.bucket.standingAfter_created]
    exact l.bucket.fresh_created first

end Timer

/-! ### A run in which a write is refused -/

/-- A limiter that gives one credit per second. -/
def Limiter.onePerSecond : Limiter := ⟨⟨.tokenBucket, .onePerSecond⟩, .sharded 4, none⟩

/-- A store without keys that refuses to write once. -/
def Scripted.refusing : Scripted MemoryStore := ⟨.empty, [(.set, .late 0 (some "refused"))], []⟩

/-- A grant whose write is refused, and a grant at an earlier reading. -/
def Ask.twice : List Ask := [⟨.grant "key", none, .second, 0⟩, ⟨.grant "key", none, .epoch, 0⟩]

/-- The grant that failed has no part in the one after it, nor in what the store keeps. -/
theorem Limiter.serve_refines_refusing :
    Scripted.refusing.inner = .empty ∧
      (Limiter.onePerSecond.serve Ask.twice .refusing).1 =
        [(⟨.grant "key", none, .second, 0⟩, none)] ++
          [(⟨.grant "key", none, .epoch, 0⟩, some (.granted ⟨true, 0, .epoch, .zero⟩))] ∧
      Answer.granted ⟨true, 0, .epoch, .zero⟩ =
        (Operation.grant "key").answerOn ⟨.tokenBucket, .onePerSecond⟩ .epoch none ∧
      ∃ standing, (Limiter.onePerSecond.serve Ask.twice .refusing).2.inner.get? "key" = some standing ∧
        standing.created = .epoch := by
  have run : (Limiter.onePerSecond.serve Ask.twice .refusing).1 =
      [(⟨.grant "key", none, .second, 0⟩, none)] ++
        [(⟨.grant "key", none, .epoch, 0⟩, some (.granted ⟨true, 0, .epoch, .zero⟩))] := by
    decide +kernel
  obtain ⟨answers, -, kept, -⟩ := Limiter.serve_refines .onePerSecond Ask.twice .refusing rfl
  refine ⟨rfl, run, answers _ _ _ _ run, ?_⟩
  obtain ⟨standing, found, -, created⟩ := kept "key" .epoch [] (by rw [run]; decide)
  exact ⟨standing, found, created⟩

end Admission
