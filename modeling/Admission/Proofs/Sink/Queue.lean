import Mathlib.Logic.Relation
import Admission.Proofs.Sink.Taking

/-!
# Queues

Anybody can leave an event in the mailbox of a queue at any time, and its worker takes them out one by one.
The worker waits until the sink behind is ready for an event or refuses it, and then until the sink has
handled it or failed. What the sink behind does, and when, is left open.

Every event is accounted for at every moment: it was dropped, or it waits, or the worker holds it or is
done with it; and no event overtakes another.

## Main definitions

* `Queue`: a mailbox and its worker, with all that has happened to them.
* `Queue.Step`: what can happen next, at the mailbox and in the worker.
* `Queue.Accounted`: where the events are.

## Main results

* `Queue.Step.kept`: every step keeps account of the events.
* `Queue.Kept.accounts`: so the events of every queue are accounted for.
-/

namespace Admission

open Relation

/-! ### The steps of a queue -/

/-- What the worker of a queue does. -/
inductive Queue.Phase
  | idle
  /-- It has taken an event and waits until the sink behind is ready for it. -/
  | readying (event : Event)
  /-- The sink behind has got the event and is not done with it. -/
  | calling (event : Event)
  deriving DecidableEq, Repr

namespace Queue.Phase

/-- The event that the worker holds. -/
def event? : Phase → Option Event
  | .idle => none
  | .readying event | .calling event => some event

/-- The event that the sink behind is not done with. -/
def called? : Phase → Option Event
  | .calling event => some event
  | .idle | .readying _ => none

end Queue.Phase

/-- A mailbox and its worker, with all that has happened to them, oldest first. -/
structure Queue where
  mailbox : Mailbox
  phase : Queue.Phase
  /-- The events that somebody wanted to leave. -/
  offered : List Event
  /-- Those of them that were let in. -/
  accepted : List Event
  /-- Those that the worker has taken out. -/
  taken : List Event
  /-- Those that the worker is done with, each with what has become of it. -/
  done : List (Event × Delivery.Outcome)
  /-- Those that the sink behind has got. -/
  received : List Event

namespace Queue

/-- A queue in which nothing has happened. -/
def start (capacity : Nat) : Queue := ⟨.ofCapacity capacity, .idle, [], [], [], [], []⟩

/-- A queue in whose mailbox somebody has left an event. -/
def offer (s : Queue) (event : Event) : Queue :=
  { s with
    mailbox := s.mailbox.offer event
    offered := s.offered ++ [event]
    accepted :=
      if s.mailbox.waiting.length < s.mailbox.capacity then s.accepted ++ [event] else s.accepted }

/-- What can happen next. -/
inductive Step : Queue → Queue → Prop
  /-- Somebody leaves an event; it does not matter who. -/
  | offer (s : Queue) (event : Event) : Step s (s.offer event)
  /-- The worker takes the first event. -/
  | take {s : Queue} {event : Event} {later : List Event} (idle : s.phase = .idle)
    (first : s.mailbox.waiting = event :: later) :
    Step s { s with
      mailbox := s.mailbox.drop 1
      phase := .readying event
      taken := s.taken ++ [event] }
  /-- The sink behind is ready for the event and gets it. -/
  | call {s : Queue} {event : Event} (readying : s.phase = .readying event) :
    Step s { s with phase := .calling event, received := s.received ++ [event] }
  /-- The sink behind refuses to become ready. -/
  | refuse {s : Queue} {event : Event} (error : SinkError) (readying : s.phase = .readying event) :
    Step s { s with phase := .idle, done := s.done ++ [(event, .refused error)] }
  /-- The sink behind has handled the event, or has failed. -/
  | finish {s : Queue} {event : Event} (outcome : Delivery.Outcome)
    (passed : outcome.isRefusal = false) (calling : s.phase = .calling event) :
    Step s { s with phase := .idle, done := s.done ++ [(event, outcome)] }

/-- The queues that one of a capacity can become. -/
def Reaches (capacity : Nat) : Queue → Prop := ReflTransGen Step (start capacity)

/-! ### Keeping account -/

/-- Where the events of a queue are, as long as not too many have come to be counted. -/
structure Accounted (capacity : Nat) (s : Queue) : Prop where
  /-- Every event was dropped, or waits, or is with the worker, or is done with. -/
  conserved : s.offered.length = (UInt64.ofNat s.mailbox.dropped).toNat + s.mailbox.waiting.length +
    s.phase.event?.toList.length + s.done.length
  bounded : s.mailbox.waiting.length ≤ max capacity 1
  /-- The next event is dropped if the mailbox is full, and else it waits behind all others. -/
  next : ∀ event, if s.mailbox.waiting.length = max capacity 1 then
      (s.offer event).mailbox.dropped = s.mailbox.dropped + 1 ∧
        (s.offer event).mailbox.waiting = s.mailbox.waiting ∧ (s.offer event).accepted = s.accepted
    else (s.offer event).mailbox.dropped = s.mailbox.dropped ∧
      (s.offer event).mailbox.waiting = s.mailbox.waiting ++ [event] ∧
        (s.offer event).accepted = s.accepted ++ [event]
  /-- Events are let in, and taken out, in the order in which they came. -/
  accepted : s.accepted.Sublist s.offered
  inOrder : s.taken ++ s.mailbox.waiting = s.accepted
  /-- The worker is done with all that it has taken, except for the event that it holds. -/
  taken : s.taken = s.done.map (·.1) ++ s.phase.event?.toList
  /-- The sink behind has got each of them once, in order, unless it was not ready for it. -/
  received : s.received =
    (s.done.filter fun e => !e.2.isRefusal).map (·.1) ++ s.phase.called?.toList

/-- What every step keeps. -/
structure Kept (capacity : Nat) (s : Queue) : Prop where
  capacity : s.mailbox.capacity = max capacity 1
  conserved : s.offered.length =
    s.mailbox.dropped + s.mailbox.waiting.length + s.phase.event?.toList.length + s.done.length
  accepted : s.accepted.Sublist s.offered
  inOrder : s.taken ++ s.mailbox.waiting = s.accepted
  taken : s.taken = s.done.map (·.1) ++ s.phase.event?.toList
  received : s.received =
    (s.done.filter fun e => !e.2.isRefusal).map (·.1) ++ s.phase.called?.toList

variable {capacity : Nat} {s s' : Queue}

theorem kept_start (capacity : Nat) : Kept capacity (start capacity) :=
  ⟨rfl, rfl, .refl _, rfl, rfl, rfl⟩

theorem Kept.offer (kept : Kept capacity s) (event : Event) : Kept capacity (s.offer event) where
  capacity := (Mailbox.capacity_offer ..).trans kept.capacity
  conserved := by
    have before := kept.conserved
    simp only [Queue.offer, Mailbox.waiting_offer, Mailbox.dropped_offer, List.length_append,
      List.length_singleton]
    split
    · rw [List.length_append, List.length_singleton]
      omega
    · omega
  accepted := by
    simp only [Queue.offer]
    split
    · exact kept.accepted.append (.refl _)
    · exact kept.accepted.trans (List.sublist_append_left ..)
  inOrder := by
    simp only [Queue.offer, Mailbox.waiting_offer]
    split
    · rw [← List.append_assoc, kept.inOrder]
    · exact kept.inOrder
  taken := kept.taken
  received := kept.received

/-- Every step keeps account of the events. -/
theorem Step.kept (step : Step s s') (kept : Kept capacity s) : Kept capacity s' := by
  obtain ⟨room, conserved, accepted, inOrder, taken, received⟩ := kept
  -- A step moves one event: into the mailbox, from there to the worker, or out of its hands.
  cases step with
  | offer event => exact Kept.offer ⟨room, conserved, accepted, inOrder, taken, received⟩ event
  | take idle first =>
    rw [idle] at conserved taken received
    rw [first] at conserved inOrder
    refine ⟨room, ?_, accepted, ?_, ?_, received⟩
    · simp [Phase.event?, first] at conserved ⊢
      omega
    · simpa [first] using inOrder
    · simpa [Phase.event?] using taken
  | call readying =>
    rw [readying] at conserved taken received
    exact ⟨room, conserved, accepted, inOrder, taken, by simpa [Phase.called?] using received⟩
  | refuse error readying =>
    rw [readying] at conserved taken received
    refine ⟨room, ?_, accepted, inOrder, ?_, ?_⟩
    · simp [Phase.event?] at conserved ⊢
      omega
    · simpa [Phase.event?] using taken
    · simpa [Phase.called?, Delivery.Outcome.isRefusal] using received
  | finish outcome passed calling =>
    rw [calling] at conserved taken received
    refine ⟨room, ?_, accepted, inOrder, ?_, ?_⟩
    · simp [Phase.event?] at conserved ⊢
      omega
    · simpa [Phase.event?] using taken
    · simpa [Phase.called?, passed] using received

theorem Reaches.kept (reached : Reaches capacity s) : Kept capacity s := by
  induction reached with
  | refl => exact kept_start capacity
  | tail _ step kept => exact step.kept kept

/-- What every step keeps accounts for the events, as long as they can be counted. -/
theorem Kept.accounts (kept : Kept capacity s) (few : s.offered.length < UInt64.size) :
    Accounted capacity s where
  conserved := by
    have counted := kept.conserved
    rw [UInt64.toNat_ofNat_of_lt' (by omega)]
    exact counted
  bounded := kept.capacity ▸ s.mailbox.length_le
  next event := by
    have most := s.mailbox.length_le
    simp only [Queue.offer, Mailbox.waiting_offer, Mailbox.dropped_offer, ← kept.capacity]
    split
    case isTrue full => simp [full]
    case isFalse room => simp [Nat.lt_of_le_of_ne most room]
  accepted := kept.accepted
  inOrder := kept.inOrder
  taken := kept.taken
  received := kept.received

end Queue

end Admission
