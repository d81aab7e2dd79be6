import Admission.Guard.Request
import Admission.Limiter.Basic

/-!
# Concurrent jobs

Jobs that are under way at the same time share a store, a clock and the locks of a limiter. A lock is
given in the order of arrival: to one job alone, or to several that only look. Jobs that can go on at
the same moment do so in the order in which they are listed.

Moments are counted since the jobs began, except where they are said to be those of the runtime.

## Main definitions

* `Place`, `admits`: the line before the locks, and who is let in.
* `Job`, `Entry`, `Stage`: what is to be done, from when and until when, and how far it has come.
* `Room`: all that the jobs share.
* `Room.run`: all jobs until each has ended.
-/

namespace Admission

/-! ### Locks -/

/-- A place in the line before the locks. It is kept until the job no longer needs the lock. -/
structure Place where
  job : Nat
  lock : Nat
  exclusive : Bool
  deriving DecidableEq, Repr

/-- Whether a job holds its lock: nobody who came earlier to the same lock is still there, or all who
are and the job itself only look. -/
def admits (job : Nat) : List Place → List Place → Bool
  | _, [] => false
  | earlier, p :: later =>
    if p.job = job then
      earlier.all fun q => q.lock ≠ p.lock || (!q.exclusive && !p.exclusive)
    else admits job (earlier ++ [p]) later

/-! ### Plans that have to wait -/

/-- How far an operation that has its lock has come. -/
inductive Going
  | ended (ending : Ending)
  /-- A call has begun, and its answer is waited for. -/
  | calling (call : StoreCall) (next : Option Standing → Plan) (course : Course)

/-- Carries a plan on at a moment of the runtime, until it ends or a call has to be waited for. -/
def Plan.go {σ : Type} [Store σ] [Timer] (limit : Option Duration) (moment : Nat) :
    Plan → Scripted σ → Going × Scripted σ
  | .finish answer, s => (.ended (.answered answer), s)
  | .ask call next, s =>
    let (course, s) := s.begin call
    match course.wait moment limit with
    -- A call that takes no time ends within the same turn.
    | .gaveUp 0 limit => (.ended (.failed call.op (.timeout call.op limit)), s)
    | .answered 0 =>
      match s.finish call course with
      | (.error error, s) => (.ended (.failed call.op (.store error)), s)
      | (.ok value, s) => (next value).go limit moment s
    | _ => (.calling call next course, s)

/-- When a call that began at a moment ends, if ever; the jobs began at a moment of the runtime. -/
def callEnds [Timer] (limit : Option Duration) (course : Course) (began since : Nat) : Option Nat :=
  match course.wait (began + since) limit with
  | .answered after | .gaveUp after _ => some (since + after)
  | .forever => none

/-- Ends a call that began at one moment of the runtime, its time having come at another, and carries its plan
on. -/
def endCall {σ : Type} [Store σ] [Timer] (limit : Option Duration) (call : StoreCall)
    (next : Option Standing → Plan) (course : Course) (since moment : Nat) (s : Scripted σ) :
    Going × Scripted σ :=
  match course.wait since limit with
  | .gaveUp _ limit => (.ended (.failed call.op (.timeout call.op limit)), s)
  | .forever => (.calling call next course, s)
  | .answered _ =>
    match s.finish call course with
    | (.error error, s) => (.ended (.failed call.op (.store error)), s)
    | (.ok value, s) => (next value).go limit moment s

/-! ### Jobs -/

/-- What is to be done. -/
inductive Job
  | operation (op : Operation) (own : Option Duration)
  | request (request : Request)
  | advance (span : Duration)
  | setClock (target : Instant)
  | sleep (span : Nat)
  deriving DecidableEq

/-- What came of a job. -/
inductive JobResult
  | answered (result : Except LimiterError Answer)
  /-- With the number of requests that have reached the service so far. -/
  | served (result : Except GuardError String) (hits : Nat)
  /-- The reading of a clock that was moved, if it could be. -/
  | clock (reading : Option Instant)
  | slept
  | cancelled

/-- A job with the moment at which it begins, and how long after that it is given up. -/
structure Entry where
  job : Job
  after : Nat
  cancelAfter : Option Nat
  deriving DecidableEq

/-- The moment at which an entry is given up. -/
def Entry.cancelAt? (e : Entry) : Option Nat := e.cancelAfter.map (e.after + ·)

/-- How far a job has come. -/
inductive Stage
  | waiting
  /-- It has a place in the line, and does not hold the lock yet. -/
  | inLine
  | calling (call : StoreCall) (next : Option Standing → Plan) (course : Course) (since : Nat)
  | asleep (till : Nat)
  | over (moment : Nat) (result : JobResult)

namespace Stage

/-- The result of a job that is over, and when it was. -/
def result? : Stage → Option (Nat × JobResult)
  | .over moment result => some (moment, result)
  | _ => none

end Stage

/-- The operation that a job carries out, with its limit on store calls. -/
def Job.operation? : Job → Option (Operation × Option Duration)
  | .operation op own => some (op, own)
  | .request r => some (.grant r.key, none)
  | _ => none

/-- The end of an operation on a key. -/
structure Ended where
  moment : Nat
  /-- How often all jobs had had their turn at that moment before. -/
  round : Nat
  key : String
  ending : Ending
  deriving DecidableEq

/-- All that jobs share. -/
structure Room (σ : Type) where
  limiter : Limiter
  /-- The moment of the runtime at which the jobs began. -/
  began : Nat
  now : Nat
  store : Scripted σ
  clock : Clock
  /-- How many requests have reached the service. -/
  hits : Nat
  line : List Place
  /-- How often all jobs have had their turn at this moment. -/
  round : Nat
  /-- The operations that ended, in order. -/
  ended : List Ended

namespace Room

variable {σ : Type} [Store σ] [Timer]

/-- Leaves the line. -/
def leave (r : Room σ) (job : Nat) : Room σ :=
  { r with line := r.line.filter fun p => p.job ≠ job }

/-- What a job has to show for the end of its operation. -/
def conclude (r : Room σ) (job : Job) (ending : Ending) : JobResult × Room σ :=
  match job with
  | .request request =>
    let (result, reached) := request.conclude ending.result
    let hits := if reached then r.hits + 1 else r.hits
    (.served result hits, { r with hits })
  | _ => (.answered ending.result, r)

/-- Takes in how far an operation has come; one that ended leaves the line and is reported. -/
def proceed (r : Room σ) (index : Nat) (job : Job) (key : String) : Going → Stage × Room σ
  | .calling call next course => (.calling call next course r.now, r)
  | .ended ending =>
    let r := r.leave index
    let (result, r) := r.conclude job ending
    (.over r.now result, { r with ended := r.ended ++ [⟨r.now, r.round, key, ending⟩] })

/-- Goes on with an operation that waits for its lock, if it is let in. The clock is read when it is. -/
def enter (r : Room σ) (index : Nat) (job : Job) : Option (Stage × Room σ) :=
  match job.operation? with
  | none => none
  | some (op, own) =>
    if admits index [] r.line then
      let plan := op.plan r.limiter.bucket r.clock.now
      let (going, store) := plan.go (r.limiter.limitOf own) (r.began + r.now) r.store
      some ({ r with store }.proceed index job op.key going)
    else none

/-- Takes a place in the line for an operation, and goes on at once if it is let in. -/
def join (r : Room σ) (index : Nat) (job : Job) (op : Operation) : Stage × Room σ :=
  let place : Place := ⟨index, r.limiter.scope.lockOf op.key, op.isExclusive⟩
  let r := { r with line := r.line ++ [place] }
  (r.enter index job).getD (.inLine, r)

/-- Begins a job, and goes on with it as far as possible. -/
def begin (r : Room σ) (index : Nat) (job : Job) : Stage × Room σ :=
  match job with
  | .operation op _ => r.join index job op
  | .request request =>
    if request.conduct = .unready then
      (.over r.now (.served (.error Request.unreadyError) r.hits), r)
    else r.join index job (.grant request.key)
  | .advance span =>
    let (moved, clock) := r.clock.advance span
    (.over r.now (.clock (if moved then some clock.now else none)), { r with clock })
  | .setClock target =>
    let clock := r.clock.set target
    (.over r.now (.clock (some clock.now)), { r with clock })
  | .sleep 0 => (.over r.now .slept, r)
  | .sleep span => (.asleep (r.now + span), r)

/-- Goes on with a job as far as possible, if it can go on now. -/
def move (r : Room σ) (index : Nat) (e : Entry) : Stage → Option (Stage × Room σ)
  | .waiting => if e.after ≤ r.now then some (r.begin index e.job) else none
  | .inLine => r.enter index e.job
  | .asleep till => if till ≤ r.now then some (.over r.now .slept, r) else none
  | .over .. => none
  | .calling call next course since =>
    match e.job.operation? with
    | none => none
    | some (op, own) =>
      let limit := r.limiter.limitOf own
      match callEnds limit course r.began since with
      | none => none
      | some moment =>
        if moment ≤ r.now then
          let (going, store) :=
            endCall limit call next course (r.began + since) (r.began + r.now) r.store
          some ({ r with store }.proceed index e.job op.key going)
        else none

/-- Whether a job that is not over is to be given up now. -/
def givesUp (r : Room σ) (e : Entry) : Stage → Bool
  | .over .. => false
  | _ => match e.cancelAt? with
    | none => false
    | some moment => decide (moment ≤ r.now)

/-- Gives a job its turn: it goes on if it can, and is given up if it is not over by then. A job that is
given up leaves the line. -/
def turn (r : Room σ) (index : Nat) (e : Entry) (stage : Stage) : Option (Stage × Room σ) :=
  let moved := r.move index e stage
  let (stage, r) := moved.getD (stage, r)
  -- What ends at the very moment of being given up has ended.
  if r.givesUp e stage then some (.over r.now .cancelled, r.leave index)
  else moved.map fun _ => (stage, r)

/-- Gives every job its turn, in order; also says whether one of them went on. -/
def pass (r : Room σ) (index : Nat) : List (Entry × Stage) → Bool × List (Entry × Stage) × Room σ
  | [] => (false, [], r)
  | (e, stage) :: rest =>
    let moved := r.turn index e stage
    let (stage, r) := moved.getD (stage, r)
    let (more, rest, r) := pass r (index + 1) rest
    (moved.isSome || more, (e, stage) :: rest, r)

/-- When a job can go on, or is given up. -/
def wakesAt (r : Room σ) (e : Entry) (stage : Stage) : List Nat :=
  match stage with
  | .waiting => [e.after]
  | .inLine => e.cancelAt?.toList
  | .asleep till => till :: e.cancelAt?.toList
  | .over .. => []
  | .calling _ _ course since =>
    let own := (e.job.operation?.map (·.2)).join
    (callEnds (r.limiter.limitOf own) course r.began since).toList ++ e.cancelAt?.toList

/-- The next moment at which something happens. -/
def nextMoment? (r : Room σ) (entries : List (Entry × Stage)) : Option Nat :=
  (entries.flatMap fun e => r.wakesAt e.1 e.2).min?

/-- Gives the jobs turns until none can go on, and then lets time pass until one can; at most so
often. -/
def steps : Nat → Room σ → List (Entry × Stage) → List (Entry × Stage) × Room σ
  | 0, r, entries => (entries, r)
  | fuel + 1, r, entries =>
    let (moved, entries, r) := r.pass 0 entries
    if moved then steps fuel { r with round := r.round + 1 } entries
    else
      match r.nextMoment? entries with
      | none => (entries, r)
      | some moment => steps fuel { r with now := moment, round := 0 } entries

/-- Runs all jobs until each is over or waits for something that never comes. A job takes at most five
steps, each of them perhaps after a wait. -/
def run (r : Room σ) (entries : List Entry) : List (Option (Nat × JobResult)) × Room σ :=
  let (entries, r) := steps (10 * entries.length + 2) r (entries.map fun e => (e, .waiting))
  (entries.map fun e => e.2.result?, r)

end Room

end Admission
