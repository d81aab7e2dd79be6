import Mathlib.Algebra.GroupWithZero.Nat
import Admission.Sink.Basic

/-!
# What an event log remembers

A log takes events and is cleared now and then. It makes no difference through which handle on the log that
is done, since all of them share what it holds and what it has counted.

A log holds the latest events since it was last cleared, as many as fit. Every event that it has taken is
held, or was let go for a later one, or was removed by a clear.

## Main definitions

* `EventLog.Use`: what is done to a log.
* `EventLog.Ledger`: a log with all that was done to it.
* `EventLog.Accounted`: where the events are.
* `Sink.use`: what is done to a memory.

## Main results

* `EventLog.Ledger.Kept.use`, `EventLog.Ledger.Kept.foldl`: a use of a log keeps account of the events, and so
  do any number of uses.
* `Sink.uses_recent`: a memory goes through such uses.
* `EventLog.holds_latest`: what a memory holds, and what has become of all other events.
-/

namespace Admission

namespace EventLog

/-- What is done to a log. -/
inductive Use
  /-- An event is delivered at a moment, by somebody with an allowance. -/
  | push (now left : Nat) (event : Event)
  | clear
  deriving DecidableEq, Repr

/-- The event that is delivered. -/
def Use.event? : Use → Option Event
  | .push _ _ event => some event
  | .clear => none

/-- A log with all that was done to it, oldest first. -/
structure Ledger where
  log : EventLog
  /-- The events of each stretch of uses that has ended with a clear. -/
  ended : List (List Event)
  /-- The events since the last clear. -/
  latest : List Event
  /-- How many events the clears have found in the log. -/
  removed : Nat

namespace Ledger

/-- A log to which nothing was done. -/
def start (capacity : Nat) : Ledger := ⟨.ofCapacity capacity, [], [], 0⟩

/-- A log to which something more was done. -/
def use (l : Ledger) : Use → Ledger
  | .push _ _ event => { l with log := l.log.push event, latest := l.latest ++ [event] }
  | .clear =>
    { log := l.log.clear
      ended := l.ended ++ [l.latest]
      latest := []
      removed := l.removed + l.log.events.length }

/-- A log of a capacity after all that was done to it. -/
def after (capacity : Nat) (uses : List Use) : Ledger := uses.foldl use (start capacity)

/-- The events of all stretches. -/
def stretches (l : Ledger) : List (List Event) := l.ended ++ [l.latest]

end Ledger

/-- Where the events of a log are, as long as not too many have come to be counted. -/
structure Accounted (capacity : Nat) (uses : List Use) (l : Ledger) : Prop where
  /-- The stretches are what was done, cut at the clears. -/
  complete : l.stretches.flatten = uses.filterMap Use.event?
  /-- What is held are the latest events since the last clear, in order. -/
  latest : l.log.events <:+ l.latest
  /-- They are as many as fit. -/
  length : l.log.events.length = min (max capacity 1) l.latest.length
  bounded : l.log.events.length ≤ max capacity 1
  /-- Each stretch had to let go what did not fit. -/
  evicted : (UInt64.ofNat l.log.evicted).toNat =
    (l.stretches.map fun stretch => stretch.length - max capacity 1).sum
  /-- Every event was let go, or removed by a clear, or is held. -/
  conserved : (uses.filterMap Use.event?).length =
    (UInt64.ofNat l.log.evicted).toNat + l.removed + l.log.events.length

namespace Ledger

/-- What every use keeps. -/
structure Kept (capacity : Nat) (uses : List Use) (l : Ledger) : Prop where
  room : l.log.capacity = max capacity 1
  complete : l.stretches.flatten = uses.filterMap Use.event?
  latest : l.log.events <:+ l.latest
  length : l.log.events.length = min (max capacity 1) l.latest.length
  evicted : l.log.evicted = (l.stretches.map fun stretch => stretch.length - max capacity 1).sum
  conserved : (uses.filterMap Use.event?).length = l.log.evicted + l.removed + l.log.events.length

variable {capacity : Nat} {uses : List Use} {l : Ledger}

theorem kept_start (capacity : Nat) : Kept capacity [] (start capacity) where
  room := rfl
  complete := rfl
  latest := List.suffix_refl _
  length := (Nat.min_zero _).symm
  evicted := by simp [start, stretches, ofCapacity]
  conserved := rfl

/-- An event more is behind all others. -/
theorem stretches_push (l : Ledger) (now left : Nat) (event : Event) :
    (l.use (.push now left event)).stretches = l.ended ++ [l.latest ++ [event]] := rfl

/-- A clear begins a new stretch. -/
theorem stretches_clear (l : Ledger) : (l.use .clear).stretches = l.stretches ++ [[]] := rfl

theorem filterMap_event?_push (uses : List Use) (now left : Nat) (event : Event) :
    (uses ++ [Use.push now left event]).filterMap Use.event? = uses.filterMap Use.event? ++ [event] := by
  rw [List.filterMap_append]
  rfl

theorem filterMap_event?_clear (uses : List Use) :
    (uses ++ [Use.clear]).filterMap Use.event? = uses.filterMap Use.event? := by
  rw [List.filterMap_append]
  exact List.append_nil _

/-- An event more is held, as long as it fits. -/
theorem Kept.length_push (kept : Kept capacity uses l) (event : Event) :
    (l.log.push event).events.length = min (max capacity 1) (l.latest.length + 1) := by
  rw [events_push, List.length_drop, List.length_append, List.length_singleton, kept.room, kept.length]
  omega

/-- An event more lets another one go once as many have come as fit. -/
theorem Kept.evicted_push (kept : Kept capacity uses l) (event : Event) :
    (l.log.push event).evicted = l.log.evicted + if l.latest.length < max capacity 1 then 0 else 1 := by
  have full : l.log.events.length < max capacity 1 ↔ l.latest.length < max capacity 1 := by
    rw [kept.length]
    omega
  rw [EventLog.evicted_push, kept.room]
  simp only [full]

theorem Kept.push (kept : Kept capacity uses l) (now left : Nat) (event : Event) :
    Kept capacity (uses ++ [.push now left event]) (l.use (.push now left event)) where
  room := (capacity_push ..).trans kept.room
  complete := by
    rw [stretches_push, filterMap_event?_push, ← kept.complete, stretches]
    simp only [List.flatten_append, List.flatten_singleton, List.append_assoc]
  latest := by
    change (l.log.push event).events <:+ l.latest ++ [event]
    obtain ⟨before, whole⟩ := kept.latest
    rw [events_push]
    refine (List.drop_suffix ..).trans ⟨before, ?_⟩
    rw [← List.append_assoc, whole]
  length := by
    rw [use, kept.length_push, List.length_append, List.length_singleton]
  evicted := by
    change (l.log.push event).evicted = _
    rw [kept.evicted_push, kept.evicted, stretches_push, stretches]
    simp only [List.map_append, List.map_singleton, List.sum_append, List.sum_singleton,
      List.length_append, List.length_singleton]
    split <;> omega
  conserved := by
    change _ = (l.log.push event).evicted + l.removed + (l.log.push event).events.length
    rw [filterMap_event?_push, List.length_append, List.length_singleton, kept.conserved, kept.evicted_push,
      kept.length_push, kept.length]
    split <;> omega

theorem Kept.clear (kept : Kept capacity uses l) :
    Kept capacity (uses ++ [.clear]) (l.use .clear) where
  room := kept.room
  complete := by
    rw [stretches_clear, filterMap_event?_clear, ← kept.complete, List.flatten_append]
    exact List.append_nil _
  latest := List.suffix_refl _
  length := (Nat.min_zero _).symm
  evicted := by
    change l.log.evicted = _
    rw [kept.evicted, stretches_clear]
    simp
  conserved := by
    change _ = l.log.evicted + (l.removed + l.log.events.length) + 0
    rw [filterMap_event?_clear, kept.conserved]
    omega

/-- Every use of a log keeps account of the events. -/
theorem Kept.use (kept : Kept capacity uses l) (use : Use) :
    Kept capacity (uses ++ [use]) (l.use use) := by
  cases use with
  | push now left event => exact kept.push now left event
  | clear => exact kept.clear

theorem Kept.foldl (kept : Kept capacity uses l) (later : List Use) :
    Kept capacity (uses ++ later) (later.foldl Ledger.use l) := by
  induction later generalizing uses l with
  | nil => rwa [List.append_nil]
  | cons use later ih =>
    rw [List.append_cons]
    exact ih (kept.use use)

/-- What every use keeps accounts for the events, as long as they can be counted. -/
theorem Kept.accounts (kept : Kept capacity uses l) (few : uses.length < UInt64.size) :
    Accounted capacity uses l := by
  obtain ⟨-, complete, latest, length, evicted, conserved⟩ := kept
  have fewer := List.length_filterMap_le Use.event? uses
  have exact : (UInt64.ofNat l.log.evicted).toNat = l.log.evicted :=
    UInt64.toNat_ofNat_of_lt' (by omega)
  exact ⟨complete, latest, length, length ▸ Nat.min_le_left .., exact.trans evicted,
    by rw [exact, conserved]⟩

end Ledger

end EventLog

namespace Sink

/-- A sink to which something was done that is done to memories: it was offered an event, or the memories
were emptied. -/
def use (sink : Sink) : EventLog.Use → Sink
  | .push now left event => (sink.poll now event .offered left).sink
  | .clear => sink.clearMemories

/-- Whatever is done to a memory, is done to its log. -/
theorem uses_memory (l : EventLog.Ledger) (uses : List EventLog.Use) :
    uses.foldl use (.memory l.log) = .memory (uses.foldl EventLog.Ledger.use l).log := by
  induction uses generalizing l with
  | nil => rfl
  | cons one later ih =>
    have step : (Sink.memory l.log).use one = .memory (l.use one).log := by
      cases one <;> rfl
    rw [List.foldl_cons, List.foldl_cons, step, ih]

end Sink

namespace EventLog

/-- Whatever is done to a memory of recent events, it holds the latest ones since the last clear, as many as
fit, and every event that it does not hold was let go or removed. -/
theorem holds_latest (capacity : Nat) (uses : List Use) (few : uses.length < UInt64.size) :
    uses.foldl Sink.use (.recent capacity) = .memory (Ledger.after capacity uses).log ∧
      Accounted capacity uses (Ledger.after capacity uses) :=
  ⟨Sink.uses_memory (.start capacity) uses, ((Ledger.kept_start capacity).foldl uses).accounts few⟩

/-- Two events, a clear, and one event more. -/
def Use.interrupted : List Use :=
  [.push 0 0 (.clear "a"), .push 0 0 (.clear "b"), .clear, .push 0 0 (.clear "c")]

/-- A memory that holds one event lets the first one go; the second is removed, and the third is held. -/
theorem holds_latest_interrupted :
    Use.interrupted.length < UInt64.size ∧ (Ledger.after 0 Use.interrupted).log.events = [.clear "c"] ∧
      (Ledger.after 0 Use.interrupted).log.evicted = 1 ∧ (Ledger.after 0 Use.interrupted).removed = 1 ∧
      Use.interrupted.foldl Sink.use (.recent 0) = .memory (Ledger.after 0 Use.interrupted).log ∧
      Accounted 0 Use.interrupted (Ledger.after 0 Use.interrupted) :=
  ⟨by decide, rfl, rfl, rfl, holds_latest 0 Use.interrupted (by decide)⟩

end EventLog

end Admission
