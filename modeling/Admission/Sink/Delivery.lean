import Admission.Journal

/-!
# Deliveries

A delivery says how far one event has come on its way through a sink. It starts as an offer, moves on
each time that it is looked at, and ends with an outcome.

Moments are counted since the sink was set up, in units of the runtime.

## Main definitions

* `Delivery.Outcome`: how a delivery ends.
* `Delivery.Branch`: which of two sinks is looked at first; they take turns at that.
* `Delivery`: how far an event has come.
* `Delivery.alarm?`: when a delivery that waits has to be looked at again.
* `Effects`: what moving a delivery on brings about elsewhere.
-/

namespace Admission

/-- How the delivery of an event ends. A sink refuses an event before it takes it, and fails while it
handles it. -/
inductive Delivery.Outcome
  | handled
  | refused (error : SinkError)
  | failed (error : SinkError)
  deriving DecidableEq, Repr

namespace Delivery.Outcome

/-- Why the event was not handled. -/
def error? : Outcome → Option SinkError
  | .handled => none
  | .refused error | .failed error => some error

/-- The outcome of a sink that passes the event to one other sink: it took the event, so all that goes
wrong behind it is its own failure. -/
def passedOn (o : Outcome) : Outcome :=
  match o.error? with
  | none => .handled
  | some error => .failed error

/-- The outcome of a sink that passes the event to two: the failure of the first of them, or else of
the second. -/
def joined (first second : Outcome) : Outcome :=
  match first.error?, second.error? with
  | some error, _ => .failed (.branch error)
  | none, some error => .failed (.branch error)
  | none, none => .handled

end Delivery.Outcome

/-- One of the two sinks behind a fan-out. -/
inductive Delivery.Branch
  | first
  | second
  deriving DecidableEq, Repr

/-- How far an event has come on its way through a sink. -/
inductive Delivery
  /-- The sink has not taken the event. -/
  | offered
  /-- A slow sink has taken the event and waits for a moment. -/
  | asleep (till : Nat)
  /-- A yielding sink has taken the event and gives way to others once. -/
  | yielded
  /-- The sink has passed the event to the one behind it. -/
  | within (inner : Delivery)
  /-- The sink has passed the event to two others, one of which is looked at before the other next
  time. -/
  | split (lead : Delivery.Branch) (first second : Delivery)
  | over (outcome : Delivery.Outcome)
  deriving DecidableEq, Repr

namespace Delivery

/-- The outcome of a delivery that has ended. -/
def outcome? : Delivery → Option Outcome
  | .over outcome => some outcome
  | _ => none

/-- The earlier of two moments, if there is any. -/
def earlier : Option Nat → Option Nat → Option Nat
  | some a, some b => some (min a b)
  | some a, none => some a
  | none, other => other

/-- The first moment that a sleeping part of the delivery waits for. -/
def alarm? : Delivery → Option Nat
  | .asleep till => some till
  | .within inner => inner.alarm?
  | .split _ first second => earlier first.alarm? second.alarm?
  | .offered | .yielded | .over _ => none

end Delivery

/-- What moving a delivery on brings about elsewhere. -/
structure Effects where
  records : List Record
  /-- Moments at which the delivery wants to be looked at again. -/
  alarms : List Nat
  /-- Workers whose mailbox is no longer empty. -/
  wakes : List Nat
  /-- Whether the delivery gave way and goes on as soon as the others have had their turn. -/
  again : Bool
  /-- Whether the allowance of the turn was used up before everything was looked at. -/
  spent : Bool

namespace Effects

/-- Nothing happens elsewhere. -/
def none : Effects := ⟨[], [], [], false, false⟩

/-- First the one, then the other. -/
def append (a b : Effects) : Effects where
  records := a.records ++ b.records
  alarms := a.alarms ++ b.alarms
  wakes := a.wakes ++ b.wakes
  again := a.again || b.again
  spent := a.spent || b.spent

instance : Append Effects := ⟨append⟩

/-- Only a record. -/
def note (record : Record) : Effects := { none with records := [record] }

/-- Only an alarm. -/
def alarm (moment : Nat) : Effects := { none with alarms := [moment] }

/-- Only a worker that is woken. -/
def wake (worker : Nat) : Effects := { none with wakes := [worker] }

/-- Only the wish to go on. -/
def yield : Effects := { none with again := true }

/-- Only that the allowance was used up. -/
def exhausted : Effects := { none with spent := true }

/-- What is written down at the end of a delivery that nobody waits for: a failure, but no refusal. -/
def ofOutcome : Delivery.Outcome → Effects
  | .failed error => note (.eventDropped error)
  | .handled | .refused _ => none

end Effects

end Admission
