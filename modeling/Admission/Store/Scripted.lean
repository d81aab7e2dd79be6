import Admission.Store.Basic
import Admission.Time.Timer

/-!
# Scripted stores

A scripted store stands in front of another store. It writes down which calls come, and delays or
refuses them as it was told to before.

Delays are in units of the runtime.

## Main definitions

* `Fault`: what is to happen to a call.
* `Scripted`: a store behind a script.
* `Scripted.begin`, `Scripted.finish`: the start of a call, and its end.
* `Course.wait`: whether a call ends before the timer rings.
-/

namespace Admission

/-- What is to happen to one call. -/
inductive Fault
  /-- It is never answered. -/
  | hang
  /-- It is answered late, and perhaps refused. -/
  | late (delay : Nat) (refusal : Option String)
  deriving DecidableEq, Repr

/-- A store behind a script. -/
structure Scripted (σ : Type) where
  inner : σ
  /-- What is to happen, each to the next call of its kind, in order. -/
  script : List (StoreOp × Fault)
  /-- The calls that came and nobody looked at yet, oldest first. -/
  calls : List (StoreOp × String)

/-- How a call that has begun will go. -/
structure Course where
  /-- After how long it is answered, if ever. -/
  due : Option Nat
  /-- The words it is refused with, if it is. -/
  refusal : Option String
  deriving DecidableEq, Repr

namespace Course

/-- A call that nothing happens to. -/
def direct : Course := ⟨some 0, none⟩

/-- The course of a call with a fault. -/
def ofFault : Fault → Course
  | .hang => ⟨none, none⟩
  | .late delay refusal => ⟨some delay, refusal⟩

end Course

/-- How long a call keeps its caller waiting. -/
inductive Wait
  | answered (after : Nat)
  | gaveUp (after : Nat) (limit : Duration)
  | forever
  deriving DecidableEq

/-- How long a call that begins at a moment keeps a caller waiting who has set a timer for a limit, if there is
one. An answer that comes when the timer rings still counts. -/
def Course.wait [Timer] (c : Course) (moment : Nat) (limit : Option Duration) : Wait :=
  match c.due, limit with
  | some due, none => .answered due
  | some due, some limit =>
    if due ≤ Timer.runs moment limit then .answered due else .gaveUp (Timer.runs moment limit) limit
  | none, some limit => .gaveUp (Timer.runs moment limit) limit
  | none, none => .forever

namespace Scripted

variable {σ : Type}

/-- A store that no script disturbs. -/
def ofStore (inner : σ) : Scripted σ := ⟨inner, [], []⟩

/-- Takes the first fault meant for a kind of call out of a script. -/
def takeFault (op : StoreOp) : List (StoreOp × Fault) → Option (Fault × List (StoreOp × Fault))
  | [] => none
  | entry :: rest =>
    if entry.1 = op then some (entry.2, rest)
    else (takeFault op rest).map fun found => (found.1, entry :: found.2)

/-- Begins a call: writes it down, and finds out how it will go. -/
def begin (s : Scripted σ) (call : StoreCall) : Course × Scripted σ :=
  let s := { s with calls := s.calls ++ [(call.op, call.key)] }
  match takeFault call.op s.script with
  | some (fault, script) => (.ofFault fault, { s with script })
  | none => (.direct, s)

/-- Ends a call: the store is asked now, unless the call is refused. -/
def finish [Store σ] (s : Scripted σ) (call : StoreCall) (course : Course) : StoreAnswer × Scripted σ :=
  match course.refusal with
  | some words => (.error (.failed words), s)
  | none =>
    let (answer, inner) := Store.answer call s.inner
    (answer, { s with inner })

/-- Has a fault happen to the next calls of a kind. -/
def arm (s : Scripted σ) (op : StoreOp) (fault : Fault) (count : Nat) : Scripted σ :=
  { s with script := s.script ++ List.replicate count (op, fault) }

/-- Takes out the calls that came. -/
def readCalls (s : Scripted σ) : List (StoreOp × String) × Scripted σ :=
  (s.calls, { s with calls := [] })

end Scripted

end Admission
