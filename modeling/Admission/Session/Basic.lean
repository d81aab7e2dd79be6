import Admission.Session.Concurrent
import Admission.Telemetry.Basic

/-!
# Sessions

A session is a limiter at work: with a scripted store, a clock, a guarded service behind it, and
telemetry. What a limiter answers is found out first, from its store and its clock alone; then time
passes for the telemetry, and what happened is reported to it.

## Main definitions

* `Session`: a limiter with all that it works with.
* `Session.perform`, `Session.request`: an operation, and a guarded request.
* `Session.concurrent`: jobs at the same time.
* `Session.callStore`: a call on the store past the limiter.
-/

namespace Admission

/-- Reports the end of an operation on a key. -/
def Telemetry.report (t : Telemetry) (key : String) (ending : Ending) : Telemetry :=
  let t := t.note (ending.record key)
  match ending.event? key with
  | some event => t.emit event
  | none => t

/-- Reports what ended in a run of jobs that began at a moment. The background is at work while the jobs
wait, also between two rounds of one moment; `last` are the moment and round of the last report. -/
def Telemetry.reportAll (began : Nat) (t : Telemetry) (last : Nat × Nat) : List Ended → Telemetry
  | [] => t
  | e :: rest =>
    let rounds := if e.moment = last.1 then e.round - last.2 else e.round
    let t := Nat.repeat Telemetry.giveWay rounds (t.advance (began + e.moment))
    -- What let the operation end, a lock or a wait, took one unit of the allowance.
    (t.spend.report e.key e.ending).reportAll began (e.moment, e.round) rest

/-- A limiter with all that it works with. -/
structure Session (σ : Type) where
  limiter : Limiter
  store : Scripted σ
  clock : Clock
  /-- How many requests have reached the guarded service. -/
  hits : Nat
  telemetry : Telemetry

namespace Session

variable {σ : Type} [Store σ] [Timer]

/-- A new session, with what its store and its sink have written down already. -/
def start (limiter : Limiter) (store : σ) (clock : Clock) (telemetry : Telemetry) : Session σ :=
  { limiter, store := .ofStore store, clock, hits := 0
    telemetry := telemetry.note (.limiterBuilt limiter.scope limiter.storeTimeout) }

/-- Carries out an operation. It has no result if it waits for an answer that never comes. -/
def perform (s : Session σ) (op : Operation) (own : Option Duration) :
    Option (Except LimiterError Answer) × Session σ :=
  let p := s.limiter.perform op own s.clock.now s.telemetry.now s.store
  -- Getting the lock takes one unit of the allowance, as does the end of a wait.
  let telemetry := p.waits.foldl Telemetry.sleep s.telemetry.spend
  match p.ending with
  | none => (none, { s with store := p.store, telemetry })
  | some ending =>
    (some ending.result, { s with store := p.store, telemetry := telemetry.report op.key ending })

/-- Passes a request to the guarded service, if that is ready and the limiter allows it. -/
def request (s : Session σ) (r : Request) : Option (Except GuardError String) × Session σ :=
  if r.conduct = .unready then (some (.error Request.unreadyError), s)
  else
    match s.perform (.grant r.key) none with
    | (none, s) => (none, s)
    | (some result, s) =>
      let (outcome, reached) := r.conclude result
      (some outcome, { s with hits := if reached then s.hits + 1 else s.hits })

/-- Calls the store past the limiter, and waits as long as it takes. -/
def callStore (s : Session σ) (call : StoreCall) : Option StoreAnswer × Session σ :=
  let (course, store) := s.store.begin call
  match course.due with
  | none => (none, { s with store })
  | some due =>
    let (answer, store) := store.finish call course
    let telemetry := if due = 0 then s.telemetry else s.telemetry.sleep due
    (some answer, { s with store, telemetry })

/-- Moves the clock forward; there is no reading if it cannot be moved that far. -/
def advance (s : Session σ) (span : Duration) : Option Instant × Session σ :=
  let (moved, clock) := s.clock.advance span
  (if moved then some clock.now else none, { s with clock })

/-- Moves the clock to an instant. -/
def setClock (s : Session σ) (target : Instant) : Session σ := { s with clock := s.clock.set target }

/-- Waits for some time. -/
def sleep (s : Session σ) (span : Nat) : Session σ :=
  { s with telemetry := s.telemetry.sleep span }

/-- Runs jobs at the same time, and reports what ended in the order in which it did. -/
def concurrent (s : Session σ) (entries : List Entry) :
    List (Option (Nat × JobResult)) × Session σ :=
  let room : Room σ :=
    { limiter := s.limiter, began := s.telemetry.now, now := 0, store := s.store, clock := s.clock, hits := s.hits
      line := [], round := 0, ended := [] }
  let (results, room) := room.run entries
  let began := s.telemetry.now
  let telemetry := s.telemetry.reportAll began (0, 0) room.ended
  (results,
    { s with
      store := room.store
      clock := room.clock
      hits := room.hits
      telemetry := telemetry.advance (began + room.now) })

/-- Changes the script of the store. -/
def arm (s : Session σ) (op : StoreOp) (fault : Fault) (count : Nat) : Session σ :=
  { s with store := s.store.arm op fault count }

/-- Takes out the calls that the store got. -/
def readCalls (s : Session σ) : List (StoreOp × String) × Session σ :=
  let (calls, store) := s.store.readCalls
  (calls, { s with store })

/-- Takes all records out of the journal. -/
def readJournal (s : Session σ) : List Record × Session σ :=
  let (records, telemetry) := s.telemetry.readJournal
  (records, { s with telemetry })

/-- Empties every memory of the sink. -/
def clearMemories (s : Session σ) : Session σ :=
  { s with telemetry := s.telemetry.clearMemories }

end Session

end Admission
