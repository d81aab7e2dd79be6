import Admission.Event

/-!
# Event logs

An event log keeps the latest events, up to its capacity, and counts those it had to let go.

## Main definitions

* `EventLog`: a log; `EventLog.ofCapacity` an empty one.
* `EventLog.push`, `EventLog.clear`: taking an event, and forgetting all of them.

## Main results

* `EventLog.events_push`: the log holds the latest events of those it held and the new one.
* `EventLog.evicted_push`: what does not fit is counted.
-/

namespace Admission

/-- The latest events, oldest first, never more than the capacity. -/
structure EventLog where
  capacity : Nat
  events : List Event
  /-- How many events made room for later ones. -/
  evicted : Nat
  capacity_pos : 0 < capacity
  length_le : events.length ≤ capacity

namespace EventLog

/-- An empty log. A capacity of zero is taken for one. -/
def ofCapacity (capacity : Nat) : EventLog where
  capacity := max capacity 1
  events := []
  evicted := 0
  capacity_pos := Nat.lt_of_lt_of_le Nat.one_pos (Nat.le_max_right ..)
  length_le := Nat.zero_le _

/-- An event fits behind those that stay: all of them where there is room, and all but the oldest
otherwise. -/
theorem length_push_le {events : List Event} {capacity : Nat} (pos : 0 < capacity)
    (h : events.length ≤ capacity) (event : Event) :
    (events.tail ++ [event]).length ≤ capacity ∧
      (events.length < capacity → (events ++ [event]).length ≤ capacity) := by
  simp only [List.length_append, List.length_tail, List.length_singleton]
  omega

/-- Takes an event. A full log lets its oldest event go. -/
def push (log : EventLog) (event : Event) : EventLog :=
  if h : log.events.length < log.capacity then
    { log with
      events := log.events ++ [event]
      length_le := (length_push_le log.capacity_pos log.length_le event).2 h }
  else
    { log with
      events := log.events.tail ++ [event]
      evicted := log.evicted + 1
      length_le := (length_push_le log.capacity_pos log.length_le event).1 }

/-- Forgets all events. What was let go before stays counted. -/
def clear (log : EventLog) : EventLog := { log with events := [], length_le := Nat.zero_le _ }

@[simp] theorem capacity_push (log : EventLog) (event : Event) :
    (log.push event).capacity = log.capacity := by
  unfold push
  split <;> rfl

/-- After an event the log holds the latest of the events it held and the new one. -/
theorem events_push (log : EventLog) (event : Event) :
    (log.push event).events =
      (log.events ++ [event]).drop ((log.events ++ [event]).length - log.capacity) := by
  have bound := log.length_le
  have pos := log.capacity_pos
  unfold push
  split
  case isTrue h =>
    have : (log.events ++ [event]).length - log.capacity = 0 := by simp; omega
    rw [this, List.drop_zero]
  case isFalse h =>
    have : (log.events ++ [event]).length - log.capacity = 1 := by simp; omega
    rw [this, List.drop_one]
    have : log.events ≠ [] := fun e => by simp [e] at h; omega
    simp [List.tail_append_of_ne_nil this]

/-- An event that does not fit is made room for, and the one that goes is counted. -/
theorem evicted_push (log : EventLog) (event : Event) :
    (log.push event).evicted =
      log.evicted + if log.events.length < log.capacity then 0 else 1 := by
  unfold push
  split <;> rfl

@[simp] theorem events_clear (log : EventLog) : log.clear.events = [] := rfl

@[simp] theorem evicted_clear (log : EventLog) : log.clear.evicted = log.evicted := rfl

end EventLog

end Admission
