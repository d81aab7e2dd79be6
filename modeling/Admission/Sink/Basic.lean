import Admission.Sink.Delivery
import Admission.Sink.EventLog
import Admission.Sink.Mailbox
import Admission.Sink.Metrics

/-!
# Sinks

A sink takes the events that a limiter reports. Sinks are put together as a tree: a fan-out passes
each event to two sinks, and a queued sink leaves it in a mailbox for a worker that feeds the sink
behind. Probes stand in for sinks that refuse, fail, or take their time.

Whoever moves events on has an allowance: so many waits may end, and so many events may be taken out of
mailboxes, before it is somebody else's turn.

## Main definitions

* `Sink`: the tree, with all that its sinks remember.
* `Sink.poll`: moves one event on through a sink, as far as it goes at a moment.
* `Sink.work`: lets one worker go on with its mailbox.
* `Sink.number`: numbers the workers.
-/

namespace Admission

/-- How a probe behaves. -/
inductive Probe
  /-- Fails to become ready. -/
  | refusing
  /-- Never becomes ready. -/
  | unready
  /-- Takes an event and fails. -/
  | failing
  /-- Takes an event and passes it on after some time. -/
  | slow (delay : Nat)
  /-- Takes an event, gives way once, and passes it on. -/
  | yielding
  deriving DecidableEq, Repr

/-- What a worker is about to do. -/
inductive Worker
  /-- It will look into its mailbox. -/
  | due
  /-- It waits for the mailbox to fill. -/
  | resting
  | handling (event : Event) (delivery : Delivery)
  deriving DecidableEq, Repr

/-- A sink for events, with all that it remembers. -/
inductive Sink
  /-- No sink at all; it takes every event. -/
  | absent
  /-- Takes every event and keeps nothing. -/
  | null
  /-- Writes every event into the journal. -/
  | journal
  | memory (log : EventLog)
  | metrics (m : Metrics)
  /-- Passes every event to two sinks. -/
  | fanOut (first second : Sink)
  /-- Leaves every event in a mailbox, from which a numbered worker feeds the sink behind. -/
  | queued (id : Nat) (mailbox : Mailbox) (worker : Worker) (inner : Sink)
  | probe (kind : Probe) (calls : Nat) (inner : Sink)

/-- What has become of a sink and of a delivery once that was moved on. -/
structure Polled where
  sink : Sink
  delivery : Delivery
  effects : Effects
  /-- What is left of the allowance. -/
  left : Nat

namespace Polled

/-- The event rests where it is. -/
def stay (sink : Sink) (delivery : Delivery) (left : Nat) : Polled := ⟨sink, delivery, .none, left⟩

/-- The event ends here. -/
def finish (sink : Sink) (outcome : Delivery.Outcome) (left : Nat) : Polled :=
  ⟨sink, .over outcome, .none, left⟩

/-- The event is with the sink behind a probe. -/
def behind (kind : Probe) (calls : Nat) (p : Polled) : Polled :=
  { p with
    sink := .probe kind calls p.sink
    delivery := match p.delivery with
      | .over outcome => .over outcome.passedOn
      | d => .within d }

/-- The event sleeps in a probe until a moment, and then goes to the sink behind it. Without allowance
nobody looks at the time. -/
def slept (now till : Nat) (kind : Probe) (calls : Nat) (inner : Sink) (left : Nat)
    (goOn : Nat → Polled) : Polled :=
  let sink := .probe kind calls inner
  if left = 0 then ⟨sink, .asleep till, .exhausted, left⟩
  else if now < till then ⟨sink, .asleep till, .alarm till, left⟩
  else (goOn (left - 1)).behind kind calls

/-- The event is with two sinks, of which `lead` is looked at first next time. -/
def both (lead : Delivery.Branch) (a b : Polled) (effects : Effects) (left : Nat) : Polled :=
  { sink := .fanOut a.sink b.sink
    delivery := match a.delivery, b.delivery with
      | .over first, .over second => .over (first.joined second)
      | first, second => .split lead first second
    effects, left }

end Polled

/-- What has become of a worker once it had its turn. -/
structure Worked where
  inner : Sink
  /-- How many events it has taken out of the mailbox. -/
  taken : Nat
  worker : Worker
  effects : Effects

namespace Sink

/-- Moves an event on through a sink, as far as it goes at a moment and with an allowance. A sink counts
an event when it takes it. -/
def poll (now : Nat) (event : Event) : Sink → Delivery → Nat → Polled
  | .absent, .offered, left => .finish .absent .handled left
  | .null, .offered, left => .finish .null .handled left
  | .journal, .offered, left => ⟨.journal, .over .handled, .note (.eventLogged event), left⟩
  | .memory log, .offered, left => .finish (.memory (log.push event)) .handled left
  | .metrics m, .offered, left => .finish (.metrics (m.observe event)) .handled left
  | .fanOut a b, .offered, left =>
    let pa := poll now event a .offered left
    let pb := poll now event b .offered pa.left
    .both .second pa pb (pa.effects ++ pb.effects) pb.left
  | .fanOut a b, .split .first da db, left =>
    let pa := poll now event a da left
    let pb := poll now event b db pa.left
    .both .second pa pb (pa.effects ++ pb.effects) pb.left
  | .fanOut a b, .split .second da db, left =>
    let pb := poll now event b db left
    let pa := poll now event a da pb.left
    .both .first pa pb (pb.effects ++ pa.effects) pa.left
  -- A worker that rests is woken; any other looks into its mailbox anyway.
  | .queued id mailbox .resting inner, .offered, left =>
    ⟨.queued id (mailbox.offer event) .due inner, .over .handled, .wake id, left⟩
  | .queued id mailbox worker inner, .offered, left =>
    .finish (.queued id (mailbox.offer event) worker inner) .handled left
  | .probe .refusing calls inner, .offered, left =>
    .finish (.probe .refusing calls inner) (.refused .notReady) left
  | .probe .unready calls inner, .offered, left => .stay (.probe .unready calls inner) .offered left
  | .probe .failing calls inner, .offered, left =>
    .finish (.probe .failing (calls + 1) inner) (.failed .callFailed) left
  | .probe (.slow delay) calls inner, .offered, left =>
    .slept now (now + delay) (.slow delay) (calls + 1) inner left (poll now event inner .offered)
  | .probe .yielding calls inner, .offered, left =>
    ⟨.probe .yielding (calls + 1) inner, .yielded, .yield, left⟩
  | .probe kind calls inner, .asleep till, left =>
    .slept now till kind calls inner left (poll now event inner .offered)
  | .probe kind calls inner, .yielded, left =>
    .behind kind calls (poll now event inner .offered left)
  | .probe kind calls inner, .within d, left => .behind kind calls (poll now event inner d left)
  -- The branch of a fan-out that has ended stays so while the other goes on.
  | sink, delivery, left => .stay sink delivery left

/-! ### Workers -/

/-- Works through events in order, the first of which is on its way already, until one has to wait or
the allowance is used up. -/
def workThrough (now : Nat) (inner : Sink) (event : Event) (delivery : Delivery) (left : Nat)
    (waiting : List Event) : Worked :=
  let p := inner.poll now event delivery left
  match p.delivery.outcome? with
  | none => ⟨p.sink, 0, .handling event p.delivery, p.effects⟩
  | some outcome =>
    let effects := p.effects ++ Effects.ofOutcome outcome
    if p.left = 0 then ⟨p.sink, 0, .due, effects ++ .exhausted⟩
    else
      match waiting with
      | [] => ⟨p.sink, 0, .resting, effects⟩
      | next :: later =>
        let w := workThrough now p.sink next .offered (p.left - 1) later
        { w with taken := w.taken + 1, effects := effects ++ w.effects }

/-- Lets a worker have its turn, with an allowance: it goes on with its event, and then takes one event
after the other out of the mailbox until one has to wait or none is left. -/
def workTurn (now allowance : Nat) (waiting : List Event) (inner : Sink) : Worker → Worked
  | .handling event delivery => workThrough now inner event delivery allowance waiting
  | .due | .resting =>
    match waiting with
    | [] => ⟨inner, 0, .resting, .none⟩
    | event :: later =>
      let w := workThrough now inner event .offered (allowance - 1) later
      { w with taken := w.taken + 1 }

/-- Lets the worker of a number have its turn, with an allowance. -/
def work (now allowance target : Nat) : Sink → Sink × Effects
  | .fanOut a b =>
    let (a, fromA) := work now allowance target a
    let (b, fromB) := work now allowance target b
    (.fanOut a b, fromA ++ fromB)
  | .queued id mailbox worker inner =>
    if id = target then
      let w := workTurn now allowance mailbox.waiting inner worker
      (.queued id (mailbox.drop w.taken) w.worker w.inner, w.effects)
    else
      let (inner, effects) := work now allowance target inner
      (.queued id mailbox worker inner, effects)
  | .probe kind calls inner =>
    let (inner, effects) := work now allowance target inner
    (.probe kind calls inner, effects)
  | sink => (sink, .none)

/-! ### Setting up -/

/-- A fan-out over two sinks. -/
def both (first second : Sink) : Sink := .fanOut first second

/-- An empty memory of the latest events. -/
def recent (capacity : Nat) : Sink := .memory (.ofCapacity capacity)

/-- Fresh metrics. -/
def counting : Sink := .metrics .empty

/-- A queue in front of a sink, with a worker that has not had its first turn. -/
def queue (capacity : Nat) (inner : Sink) : Sink := .queued 0 (.ofCapacity capacity) .due inner

/-- A probe that has not been called. -/
def probing (kind : Probe) (inner : Sink) : Sink := .probe kind 0 inner

/-- Numbers the workers in the order in which they start: behind a queue first, and the first branch of
a fan-out before the second. Also gives the next free number. -/
def number (next : Nat) : Sink → Sink × Nat
  | .fanOut a b =>
    let (a, next) := number next a
    let (b, next) := number next b
    (.fanOut a b, next)
  | .queued _ mailbox worker inner =>
    let (inner, next) := number next inner
    (.queued next mailbox worker inner, next + 1)
  | .probe kind calls inner =>
    let (inner, next) := number next inner
    (.probe kind calls inner, next)
  | sink => (sink, next)

/-- The capacities of all mailboxes. -/
def mailboxCapacities : Sink → List Nat
  | .fanOut a b => mailboxCapacities a ++ mailboxCapacities b
  | .queued _ mailbox _ inner => mailboxCapacities inner ++ [mailbox.capacity]
  | .probe _ _ inner => mailboxCapacities inner
  | _ => []

/-- How many sinks in the tree register metrics. -/
def metricsCount : Sink → Nat
  | .metrics _ => 1
  | .fanOut a b => metricsCount a + metricsCount b
  | .queued _ _ _ inner | .probe _ _ inner => metricsCount inner
  | _ => 0

/-- Empties every memory in the tree. -/
def clearMemories : Sink → Sink
  | .memory log => .memory log.clear
  | .fanOut a b => .fanOut (clearMemories a) (clearMemories b)
  | .queued id mailbox worker inner => .queued id mailbox worker (clearMemories inner)
  | .probe kind calls inner => .probe kind calls (clearMemories inner)
  | sink => sink

/-! ### Work that is left -/

/-- How often at most one event has to be looked at again, by whoever delivers it or by a worker, until
the sink is done with it. Each probe and each mailbox on its way counts twice, since it may also use up
an allowance. -/
def effort : Sink → Nat
  | .fanOut a b => effort a + effort b
  | .queued _ _ _ inner | .probe _ _ inner => effort inner + 2
  | _ => 0

/-- How often at most the workers have to have a turn until they are done with what they hold. -/
def backlog : Sink → Nat
  | .fanOut a b => backlog a + backlog b
  | .queued _ mailbox _ inner =>
    (mailbox.waiting.length + 1) * (effort inner + 1) + backlog inner
  | .probe _ _ inner => backlog inner
  | _ => 0

end Sink

end Admission
