/-!
# Agendas

An agenda says who has a turn at which moment. Turns are taken in the order of their moments, and those
of one moment in the order in which they were asked for. A task has at most one turn at one moment,
however often it asks.

Turns are taken in rounds, and a task may get only so much done in one turn. Whoever has used up this
allowance gets back in line at the end of the round.

## Main definitions

* `Agenda`: the turns to come.
* `Agenda.insert`, `Agenda.next?`: asking for a turn, and taking the first one before a moment.
* `Agenda.putOff`, `Agenda.endRound`: leaving the line until the end of a round.
-/

namespace Admission

/-- Who can have a turn. -/
inductive Task
  /-- A numbered worker. -/
  | worker (id : Nat)
  /-- A numbered emission that was left to the background. -/
  | emission (id : Nat)
  deriving DecidableEq, Repr

/-- A turn to come. -/
structure Turn where
  moment : Nat
  task : Task
  deriving DecidableEq, Repr

namespace Turn

/-- How many waits may end, and events be taken out of mailboxes, within one turn. -/
def allowance : Nat := 128

/-- How many turns make a round at most. A round also ends when nobody is in line. -/
def perRound : Nat := 61

end Turn

/-- The turns to come, in the order in which they are taken. -/
structure Agenda where
  turns : List Turn
  /-- Who has used up an allowance in this round, the last one first. -/
  spent : List Task
  deriving DecidableEq, Repr

namespace Agenda

/-- No turns. -/
def empty : Agenda := ⟨[], []⟩

/-- Places a turn behind all that are not later, unless it is among them. -/
def place (turn : Turn) : List Turn → List Turn
  | [] => [turn]
  | first :: rest =>
    if first = turn then first :: rest
    else if first.moment ≤ turn.moment then first :: place turn rest
    else turn :: first :: rest

/-- Asks for a turn. -/
def insert (a : Agenda) (moment : Nat) (task : Task) : Agenda :=
  { a with turns := place ⟨moment, task⟩ a.turns }

/-- The first turn, if it comes before a moment, and the turns behind it. -/
def next? (a : Agenda) (before : Nat) : Option (Turn × Agenda) :=
  match a.turns with
  | [] => none
  | first :: rest => if first.moment < before then some (first, { a with turns := rest }) else none

/-- Has a task wait for the end of the round. -/
def putOff (a : Agenda) (task : Task) : Agenda :=
  if a.spent.head? = some task then a else { a with spent := task :: a.spent }

/-- Ends a round at a moment: those who waited for that get back in line, the last one first. -/
def endRound (a : Agenda) (moment : Nat) : Agenda :=
  a.spent.foldl (fun a task => a.insert moment task) { a with spent := [] }

end Agenda

end Admission
