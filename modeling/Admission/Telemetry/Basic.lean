import Admission.Sink.Basic
import Admission.Telemetry.Agenda

/-!
# Telemetry

A sink with the background work that it causes, and the journal that everything is written into. An
emission is moved on once in place; what is then still under way goes on in the background, while
whoever emitted waits for something else. So a sink can lose events, but cannot delay who reports them.

Who reports, in the foreground, has turns of an allowance like everyone else: a turn lasts from one wait
to the next.

## Main definitions

* `Telemetry`: a sink, what is under way, and the journal.
* `Telemetry.start?`: sets a sink up.
* `Telemetry.emit`: reports an event and does not wait.
* `Telemetry.deliver`, `Telemetry.emitAndWait`: passes an event to the sink and waits for the end.
* `Telemetry.advance`: lets time pass, with the background at work.
-/

namespace Admission

-- Powers of natural numbers are the core library's, whatever else is in scope.
attribute [local instance (high)] instPowNat

/-- An emission that was not done when it was left to the background. -/
structure Emission where
  id : Nat
  event : Event
  delivery : Delivery
  deriving DecidableEq, Repr

/-- A sink, what is under way to it, and the journal. -/
structure Telemetry where
  /-- Whether there is a background. Without one, what is not done in place is lost. -/
  background : Bool
  /-- How much time has passed since the start, in units of the runtime. -/
  now : Nat
  sink : Sink
  pending : List Emission
  agenda : Agenda
  /-- What has been written down and not yet read, oldest first. -/
  journal : List Record
  /-- How many emissions were left to the background. -/
  emissions : Nat
  /-- What is left of the allowance of the foreground's turn. -/
  left : Nat

namespace Telemetry

/-! ### Starting -/

/-- Why a sink cannot be set up. -/
inductive StartError
  /-- A queue needs a background for its worker. -/
  | noBackground
  /-- A mailbox is larger than any mailbox can be. -/
  | mailboxTooLarge
  deriving DecidableEq, Repr

/-- The largest capacity of a mailbox. -/
def mailboxMax : Nat := 2 ^ (61 : Nat) - 1

/-- A sink with its workers numbered, each with a first turn to come, and nothing under way. -/
def start (background : Bool) (sink : Sink) : Telemetry :=
  let (sink, workers) := sink.number 0
  { background, now := 0, sink, pending := []
    agenda := ⟨(List.range workers).map fun id => ⟨0, .worker id⟩, []⟩
    journal := List.replicate sink.metricsCount .metricsRegistered
    emissions := 0
    left := Turn.allowance }

/-- Sets a sink up, if it can be. -/
def start? (background : Bool) (sink : Sink) : Except StartError Telemetry :=
  let capacities := sink.mailboxCapacities
  if background = false ∧ capacities ≠ [] then .error .noBackground
  else if capacities.any (mailboxMax < ·) then .error .mailboxTooLarge
  else .ok (start background sink)

/-! ### Effects -/

/-- Writes a record down. -/
def note (t : Telemetry) (record : Record) : Telemetry :=
  { t with journal := t.journal ++ [record] }

/-- Writes down what a poll wants written, and gives the workers it woke their turns. -/
def absorb (t : Telemetry) (effects : Effects) : Telemetry :=
  { t with
    journal := t.journal ++ effects.records
    agenda := effects.wakes.foldl (fun a id => a.insert t.now (.worker id)) t.agenda }

/-- Gives a task the turns that a poll asks for. -/
def schedule (t : Telemetry) (task : Task) (effects : Effects) : Telemetry :=
  let agenda := effects.alarms.foldl (fun a moment => a.insert moment task) t.agenda
  let agenda := if effects.again then agenda.insert t.now task else agenda
  { t with agenda := if effects.spent then agenda.putOff task else agenda }

/-! ### The background -/

/-- Gives a task its turn now. -/
def run (t : Telemetry) : Task → Telemetry
  | .worker id =>
    let (sink, effects) := t.sink.work t.now Turn.allowance id
    ({ t with sink }.absorb effects).schedule (.worker id) effects
  | .emission id =>
    match t.pending.find? (·.id = id) with
    | none => t
    | some e =>
      let p := t.sink.poll t.now e.event e.delivery Turn.allowance
      let others := t.pending.eraseP (·.id = id)
      match p.delivery.outcome? with
      | some outcome =>
        { t with sink := p.sink, pending := others }.absorb (p.effects ++ Effects.ofOutcome outcome)
      | none =>
        let rest : Emission := { e with delivery := p.delivery }
        ({ t with sink := p.sink, pending := others ++ [rest] }.absorb p.effects).schedule
          (.emission id) p.effects

/-- Takes the turns that are due now, in order, at most so many. -/
def takeTurns : Nat → Telemetry → Telemetry
  | 0, t => t
  | count + 1, t =>
    match t.agenda.next? (t.now + 1) with
    | none => t
    | some (turn, agenda) => takeTurns count ({ t with agenda }.run turn.task)

/-- Has the background take one round of turns. -/
def round (t : Telemetry) : Telemetry :=
  let t := takeTurns Turn.perRound t
  { t with agenda := t.agenda.endRound t.now }

/-- A bound on the turns that are taken until the background is done. -/
def turnsLeft (t : Telemetry) : Nat :=
  t.agenda.turns.length + t.pending.length * t.sink.effort + t.sink.backlog

/-- Lets time pass and has the background take rounds as long as turns come before a moment, at most so
many. -/
def takeRounds (before : Nat) : Nat → Telemetry → Telemetry
  | 0, t => t
  | fuel + 1, t =>
    match t.agenda.next? before with
    | none => t
    | some (turn, _) => takeRounds before fuel { t with now := max t.now turn.moment }.round

/-- Lets the background do all that it has to do before a moment. -/
def runBefore (t : Telemetry) (moment : Nat) : Telemetry := takeRounds moment t.turnsLeft t

/-! ### The foreground -/

/-- Gives way to the background for one round. -/
def giveWay (t : Telemetry) : Telemetry := { t.round with left := Turn.allowance }

/-- Uses up one unit of the allowance, giving way first if there is none. -/
def spend (t : Telemetry) : Telemetry :=
  let t := if t.left = 0 then t.giveWay else t
  { t with left := t.left - 1 }

/-- Lets time pass until a moment, with the background at work. Who waits for the moment goes on before
the background does what it has to do at that very moment. -/
def advance (t : Telemetry) (moment : Nat) : Telemetry :=
  if moment ≤ t.now then t
  else { t.runBefore moment with now := moment, left := Turn.allowance }

/-- Waits for some time. -/
def sleep (t : Telemetry) (span : Nat) : Telemetry := (t.advance (t.now + span)).spend

/-! ### Events -/

/-- Reports an event and does not wait: what is not done at once is left to the background. -/
def emit (t : Telemetry) (event : Event) : Telemetry :=
  let p := t.sink.poll t.now event .offered t.left
  let t := { t with sink := p.sink, left := p.left }
  match p.delivery.outcome? with
  | some outcome => t.absorb (p.effects ++ Effects.ofOutcome outcome)
  | none =>
    if t.background then
      -- The background looks at every emission once, even at one that waits for a later moment.
      let e : Emission := ⟨t.emissions, event, p.delivery⟩
      { t with pending := t.pending ++ [e], emissions := t.emissions + 1 }
        |>.absorb p.effects
        |>.schedule (.emission e.id) { p.effects with again := true, spent := false }
    else t.absorb p.effects |>.note .eventAbandoned

/-- Moves a delivery on until it ends, at most so often. -/
def follow (event : Event) : Nat → Delivery → Telemetry → Option Delivery.Outcome × Telemetry
  | 0, _, t => (none, t)
  | fuel + 1, delivery, t =>
    let p := t.sink.poll t.now event delivery t.left
    let t := { t with sink := p.sink, left := p.left }.absorb p.effects
    match p.delivery.outcome? with
    | some outcome => (some outcome, t)
    | none =>
      if p.effects.again || p.effects.spent then follow event fuel p.delivery t.giveWay
      else
        match p.delivery.alarm? with
        | some moment => follow event fuel p.delivery (t.advance moment)
        | none => (none, t)

/-- Passes an event to the sink and waits for the outcome. There is none if the sink never becomes
ready. -/
def deliver (t : Telemetry) (event : Event) : Option Delivery.Outcome × Telemetry :=
  follow event (t.sink.effort + 2) .offered t

/-- Reports an event and waits until the sink is done with it. A failure is only written down. -/
def emitAndWait (t : Telemetry) (event : Event) : Telemetry :=
  let (outcome, t) := t.deliver event
  match outcome with
  | some outcome => t.absorb (.ofOutcome outcome)
  | none => t

/-! ### Looking at it -/

/-- Takes all records out of the journal. -/
def readJournal (t : Telemetry) : List Record × Telemetry := (t.journal, { t with journal := [] })

/-- Empties every memory of the sink. -/
def clearMemories (t : Telemetry) : Telemetry := { t with sink := t.sink.clearMemories }

end Telemetry

end Admission
