import Admission.Event

/-!
# Mailboxes

A mailbox keeps events in the order they came until a worker takes them, and turns away what does not
fit.

## Main definitions

* `Mailbox`: a bounded queue of events with a count of those turned away.
* `Mailbox.offer`, `Mailbox.drop`: leaving an event, and taking the first ones out.

## Main results

* `Mailbox.waiting_offer`, `Mailbox.dropped_offer`: an event is queued if there is room, and counted as
  dropped exactly if there is none.
-/

namespace Admission

/-- A bounded queue of events, first in first out. -/
structure Mailbox where
  capacity : Nat
  waiting : List Event
  /-- How many events found the mailbox full. -/
  dropped : Nat
  length_le : waiting.length ≤ capacity

namespace Mailbox

/-- The empty list fits into every capacity. -/
theorem length_nil_le (capacity : Nat) : ([] : List Event).length ≤ capacity := Nat.zero_le capacity

/-- An empty mailbox. A capacity of zero is taken for one. -/
def ofCapacity (capacity : Nat) : Mailbox where
  capacity := max capacity 1
  waiting := []
  dropped := 0
  length_le := length_nil_le _

/-- One event more fits where there is room. -/
theorem length_concat_le {events : List Event} {capacity : Nat} (h : events.length < capacity)
    (event : Event) : (events ++ [event]).length ≤ capacity := by
  rw [List.length_append]
  exact h

/-- Taking events out leaves no more than there were. -/
theorem length_drop_le {events : List Event} {capacity : Nat} (h : events.length ≤ capacity)
    (count : Nat) : (events.drop count).length ≤ capacity := by
  rw [List.length_drop]
  omega

/-- Leaves an event, unless the mailbox is full. -/
def offer (box : Mailbox) (event : Event) : Mailbox :=
  if h : box.waiting.length < box.capacity then
    { box with waiting := box.waiting ++ [event], length_le := length_concat_le h event }
  else { box with dropped := box.dropped + 1 }

/-- The mailbox once the first events have been taken out. -/
def drop (box : Mailbox) (count : Nat) : Mailbox :=
  { box with
    waiting := box.waiting.drop count
    length_le := length_drop_le box.length_le count }

/-- The mailbox in words: how much fits and how much did not. -/
def text (box : Mailbox) : String :=
  "NonBlockingSink \x7b capacity: " ++ toString box.capacity ++ ", dropped: " ++
    toString box.dropped ++ " \x7d"

@[simp] theorem capacity_offer (box : Mailbox) (event : Event) :
    (box.offer event).capacity = box.capacity := by
  unfold offer
  split <;> rfl

theorem waiting_offer (box : Mailbox) (event : Event) :
    (box.offer event).waiting =
      if box.waiting.length < box.capacity then box.waiting ++ [event] else box.waiting := by
  unfold offer
  split <;> simp_all

theorem dropped_offer (box : Mailbox) (event : Event) :
    (box.offer event).dropped =
      if box.waiting.length < box.capacity then box.dropped else box.dropped + 1 := by
  unfold offer
  split <;> simp_all

@[simp] theorem waiting_drop (box : Mailbox) (count : Nat) :
    (box.drop count).waiting = box.waiting.drop count := rfl

@[simp] theorem dropped_drop (box : Mailbox) (count : Nat) :
    (box.drop count).dropped = box.dropped := rfl

end Mailbox

end Admission
