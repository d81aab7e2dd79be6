import Admission.Proofs.Sink.Queue

/-!
# Workers

The worker of a queued sink takes the events out of its mailbox and has the sink behind move on the one that it
holds, until that delivery has ended. The sink behind is what its own polls leave of it, and it has got an event
when one of them has taken it.

Whatever the sink behind makes of the events, the mailbox and the worker go through the steps of a queue, so that
every event is accounted for.

## Main definitions

* `Queue.Manned`: a queue with the sink behind it, and what the worker holds.
* `Queue.Manned.Step`: what can happen next, the sink behind being what it is.
* `Sink.Does`: what a turn of a worker does can be done by such steps.
* `Sink.act`: what can happen to a queued sink.
* `Sink.Shows`: a queued sink is a queue with the sink behind it.

## Main results

* `Queue.Manned.Step.reaches`: whatever the sink behind does, its queue goes through steps.
* `Sink.does_workThrough`: a worker goes through its mailbox by such steps, one poll for each look.
* `Queue.accounted`: the events of every queue are accounted for, those of a queued sink by its own polls.
-/

namespace Admission

open Relation

/-! ### Mailboxes -/

namespace Mailbox

variable (box : Mailbox)

theorem drop_drop (first second : Nat) : (box.drop first).drop second = box.drop (first + second) := by
  simp only [drop, List.drop_drop]

end Mailbox

/-! ### The sink behind -/

namespace Queue

/-- What a worker does that holds an event, as far as that has come. -/
def Phase.of : Option (Event × Delivery) → Phase
  | none => .idle
  | some (event, .offered) => .readying event
  | some (event, _) => .calling event

/-- What a worker still holds of an event that has come so far: nothing, once the delivery has ended. -/
def holds (event : Event) (delivery : Delivery) : Option (Event × Delivery) :=
  match delivery.outcome? with
  | none => some (event, delivery)
  | some _ => none

/-- A queue with the sink behind it, and the event that the worker holds, as far as that sink has moved it. -/
structure Manned where
  queue : Queue
  held : Option (Event × Delivery)
  inner : Sink

namespace Manned

/-- A queue in which nothing has happened, in front of a sink. -/
def start (capacity : Nat) (inner : Sink) : Manned := ⟨.start capacity, none, inner⟩

/-- Somebody leaves an event. -/
def offer (m : Manned) (event : Event) : Manned := { m with queue := m.queue.offer event }

/-- The worker takes an event out of the mailbox. -/
def take (m : Manned) (event : Event) : Manned :=
  { m with
    held := some (event, .offered)
    queue := { m.queue with
      mailbox := m.queue.mailbox.drop 1
      phase := .readying event
      taken := m.queue.taken ++ [event] } }

/-- The sink behind moves an event on for the worker. -/
def look (m : Manned) (now : Nat) (event : Event) (delivery : Delivery) (left : Nat) : Manned :=
  let p := m.inner.poll now event delivery left
  { inner := p.sink
    held := holds event p.delivery
    queue := { m.queue with
      phase := .of (holds event p.delivery)
      done := m.queue.done ++ p.delivery.outcome?.toList.map (event, ·)
      received := m.queue.received ++ delivery.stage.call event p.delivery.stage } }

/-- What can happen next. -/
inductive Step : Manned → Manned → Prop
  | offer (m : Manned) (event : Event) : Step m (m.offer event)
  | take {m : Manned} {event : Event} {later : List Event} (idle : m.held = none)
    (first : m.queue.mailbox.waiting = event :: later) : Step m (m.take event)
  | look {m : Manned} {event : Event} {delivery : Delivery} (now left : Nat)
    (held : m.held = some (event, delivery)) : Step m (m.look now event delivery left)
  /-- A worker inside the sink behind has a turn. -/
  | work (m : Manned) (now allowance target : Nat) :
    Step m { m with inner := (m.inner.work now allowance target).1 }

/-- The worker does what it can do with what it holds, which is on offer to the sink behind or taken by it. -/
structure Sound (m : Manned) : Prop where
  phase : m.queue.phase = .of m.held
  held : ∀ event delivery, m.held = some (event, delivery) → delivery = .offered ∨ delivery.Taken

variable {m m' : Manned} {event : Event} {delivery : Delivery}

theorem sound_start (capacity : Nat) (inner : Sink) : (start capacity inner).Sound := ⟨rfl, nofun⟩

theorem sound_of_holds (phase : m.queue.phase = .of m.held) (held : m.held = holds event delivery)
    (moved : delivery = .offered ∨ delivery.Taken ∨ delivery.outcome?.isSome = true) : m.Sound := by
  refine ⟨phase, fun event' delivery' same => ?_⟩
  rw [held, holds] at same
  cases ended : delivery.outcome? with
  | none =>
    rw [ended] at same moved
    cases same
    simpa using moved
  | some outcome =>
    rw [ended] at same
    cases same

/-- A sink that has taken an event is called with it; when the delivery has ended, the worker is done. -/
theorem reaches_of_taken {s : Queue} (calling : s.phase = .calling event) (taken : delivery.Taken) :
    ReflTransGen Queue.Step s { s with
      phase := .of (holds event delivery)
      done := s.done ++ delivery.outcome?.toList.map (event, ·) } := by
  cases ended : delivery.outcome? with
  | none =>
    have same : Phase.of (holds event delivery) = s.phase := by
      rw [holds, ended, calling]
      cases delivery with
      | offered => exact absurd rfl taken.1
      | _ => rfl
    rw [same, Option.toList_none, List.map_nil, List.append_nil]
  | some outcome =>
    rw [holds, ended]
    exact .single (.finish outcome (taken.isRefusal ended) calling)

/-- What the sink behind makes of an event are steps of the queue. -/
theorem reaches_look (sound : m.Sound) (held : m.held = some (event, delivery)) (now left : Nat) :
    ReflTransGen Queue.Step m.queue (m.look now event delivery left).queue ∧
      (m.look now event delivery left).Sound := by
  have phase := sound.phase
  rw [held] at phase
  rcases sound.held event delivery held with rfl | taken
  · rcases m.inner.poll_offered now event left with ⟨offered, -⟩ | ⟨error, refused, -⟩ | taken
    · have same : (m.look now event .offered left).queue = m.queue := by
        simp [look, offered, holds, Delivery.outcome?, Delivery.stage, Delivery.Stage.call_self, ← phase]
      exact ⟨by rw [same], sound_of_holds rfl rfl (.inl offered)⟩
    · have step := Queue.Step.refuse error phase
      refine ⟨.single ?_, sound_of_holds rfl rfl (.inr (.inr (by rw [refused]; rfl)))⟩
      simpa [look, refused, holds, Delivery.outcome?, Phase.of, Delivery.stage, Delivery.Stage.call,
        Delivery.Stage.isCalled, Delivery.Outcome.isRefusal] using step
    · have called : Delivery.offered.stage.call event (m.inner.poll now event .offered left).delivery.stage =
        [event] := if_pos (Delivery.isCalled_stage_iff.2 taken)
      refine ⟨.head (.call phase) ?_, sound_of_holds rfl rfl (.inr (.inl taken))⟩
      rw [look]
      dsimp only
      rw [called]
      exact reaches_of_taken rfl taken
  · have kept := m.inner.poll_taken now event left taken
    have none : delivery.stage.call event (m.inner.poll now event delivery left).delivery.stage = [] :=
      if_pos (Delivery.isCalled_stage_iff.2 taken)
    have calling : m.queue.phase = .calling event := by
      rw [phase]
      cases delivery with
      | offered => exact absurd rfl taken.1
      | _ => rfl
    refine ⟨?_, sound_of_holds rfl rfl (.inr (.inl kept))⟩
    rw [look]
    dsimp only
    rw [none, List.append_nil]
    exact reaches_of_taken calling kept

/-- Whatever the sink behind does, its queue goes through steps. -/
theorem Step.reaches (step : Step m m') (sound : m.Sound) :
    ReflTransGen Queue.Step m.queue m'.queue ∧ m'.Sound := by
  cases step with
  | offer event => exact ⟨.single (.offer m.queue event), sound.phase, sound.held⟩
  | take idle first =>
    have phase := sound.phase
    rw [idle] at phase
    exact ⟨.single (.take phase first), sound_of_holds rfl rfl (.inl rfl)⟩
  | look now left held => exact reaches_look sound held now left
  | work now allowance target => exact ⟨.refl, sound.phase, sound.held⟩

/-- So does every run. -/
theorem reaches_of_steps (steps : ReflTransGen Step m m') (sound : m.Sound) :
    ReflTransGen Queue.Step m.queue m'.queue ∧ m'.Sound := by
  induction steps with
  | refl => exact ⟨.refl, sound⟩
  | tail _ step ih =>
    obtain ⟨before, sound⟩ := ih
    obtain ⟨more, sound⟩ := step.reaches sound
    exact ⟨before.trans more, sound⟩

end Manned

end Queue

/-! ### Queued sinks -/

/-- What a worker holds. -/
def Worker.held? : Worker → Option (Event × Delivery)
  | .due | .resting => none
  | .handling event delivery => some (event, delivery)

namespace Sink

open Queue

variable {event : Event} {delivery : Delivery} {m : Manned}

/-- Behind the event that is taken are the others. -/
theorem waiting_take {later : List Event} (first : m.queue.mailbox.waiting = event :: later) :
    (m.take event).queue.mailbox.waiting = later := by
  rw [Manned.take, Mailbox.waiting_drop, first]
  rfl

/-- A queue can come to what a turn of its worker has done: events are taken out, one may be held, and the sink
behind has been at work. -/
def Does (m : Manned) (turn : Worked) : Prop :=
  ∃ m', ReflTransGen Manned.Step m m' ∧ m'.queue.offered = m.queue.offered ∧
    m'.queue.mailbox = m.queue.mailbox.drop turn.taken ∧ m'.held = turn.worker.held? ∧ m'.inner = turn.inner

/-- What a look leads to. -/
theorem Does.look {turn : Worked} (now left : Nat) (held : m.held = some (event, delivery))
    (rest : Does (m.look now event delivery left) turn) : Does m turn := by
  obtain ⟨m', steps, rest⟩ := rest
  exact ⟨m', .head (.look now left held) steps, rest⟩

/-- A worker that takes an event first has taken one event more. -/
theorem Does.take {turn : Worked} {later : List Event} {effects : Effects} (idle : m.held = none)
    (first : m.queue.mailbox.waiting = event :: later) (rest : Does (m.take event) turn) :
    Does m { turn with taken := turn.taken + 1, effects } := by
  obtain ⟨m', steps, offered, box, rest⟩ := rest
  refine ⟨m', .head (.take idle first) steps, offered, ?_, rest⟩
  rw [box, Manned.take, Mailbox.drop_drop, Nat.add_comm]

/-- A worker goes through its mailbox by looks at what it holds, and by taking the next event. -/
theorem does_workThrough {waiting : List Event} (now left : Nat) (held : m.held = some (event, delivery))
    (box : m.queue.mailbox.waiting = waiting) :
    Does m (m.inner.workThrough now event delivery left waiting) := by
  induction waiting generalizing m event delivery left with
  | nil =>
    refine .look now left held ⟨_, .refl, rfl, ?_⟩
    rw [workThrough, Manned.look, holds]
    cases (m.inner.poll now event delivery left).delivery.outcome? with
    | none => exact ⟨rfl, rfl, rfl⟩
    | some outcome =>
      dsimp only
      split <;> exact ⟨rfl, rfl, rfl⟩
  | cons next later ih =>
    refine .look now left held ?_
    rw [workThrough]
    cases ended : (m.inner.poll now event delivery left).delivery.outcome? with
    | none =>
      refine ⟨_, .refl, rfl, rfl, ?_, rfl⟩
      rw [Manned.look, holds, ended]
      rfl
    | some outcome =>
      have idle : (m.look now event delivery left).held = none := by
        rw [Manned.look, holds, ended]
      dsimp only
      split
      · exact ⟨_, .refl, rfl, rfl, idle, rfl⟩
      · -- The worker is free for the next event.
        exact .take idle box (ih _ rfl (waiting_take box))

/-- So does a worker that has its turn. -/
theorem does_workTurn {worker : Worker} (now allowance : Nat) (held : m.held = worker.held?) :
    Does m (m.inner.workTurn now allowance m.queue.mailbox.waiting worker) := by
  -- A worker that is due and one that rests take the first event alike.
  have idle (idle : m.held = none) : Does m (m.inner.workTurn now allowance m.queue.mailbox.waiting .due) := by
    cases first : m.queue.mailbox.waiting with
    | nil => exact ⟨m, .refl, rfl, rfl, idle, rfl⟩
    | cons event later => exact .take idle first (does_workThrough now (allowance - 1) rfl (waiting_take first))
  cases worker with
  | due => exact idle held
  | resting => exact idle held
  | handling event delivery => exact does_workThrough now allowance held rfl

end Sink

/-- What can happen to a queued sink: somebody offers it an event, or a worker has a turn. -/
inductive Sink.Action
  | offer (now left : Nat) (event : Event)
  | turn (now allowance target : Nat)

namespace Sink

open Queue

/-- The event that is offered. -/
def Action.event? : Action → Option Event
  | .offer _ _ event => some event
  | .turn .. => none

/-- A sink to which something has happened. -/
def act (sink : Sink) : Action → Sink
  | .offer now left event => (sink.poll now event .offered left).sink
  | .turn now allowance target => (sink.work now allowance target).1

/-- The sink has the mailbox of a queue and the sink behind that, and its worker holds what is held there. -/
inductive Shows (m : Manned) : Sink → Prop
  | intro (id : Nat) (worker : Worker) (held : m.held = worker.held?) :
    Shows m (.queued id m.queue.mailbox worker m.inner)

theorem Shows.of_queued {m : Manned} {sink inner : Sink} {id : Nat} {mailbox : Mailbox} {worker : Worker}
    (shown : Shows m sink) (same : sink = .queued id mailbox worker inner) :
    mailbox = m.queue.mailbox ∧ inner = m.inner := by
  obtain ⟨id, worker, held⟩ := shown
  cases same
  exact ⟨rfl, rfl⟩

/-- Whatever happens to a queued sink, happens to its queue and to the sink behind. -/
theorem Shows.reaches_act {m : Manned} {sink : Sink} (shown : Shows m sink) (action : Action) :
    ∃ m', ReflTransGen Manned.Step m m' ∧ Shows m' (sink.act action) ∧
      m'.queue.offered = m.queue.offered ++ action.event?.toList := by
  obtain ⟨id, worker, held⟩ := shown
  cases action with
  | offer now left event =>
    refine ⟨m.offer event, .single (.offer m event), ?_, rfl⟩
    cases worker with
    | resting => exact .intro id .due held
    | due => exact .intro id .due held
    | handling event' delivery => exact .intro id (.handling event' delivery) held
  | turn now allowance target =>
    rw [Sink.act, work]
    split
    · obtain ⟨m', steps, offered, box, held', inner⟩ := does_workTurn now allowance held
      refine ⟨m', steps, ?_, by rw [offered]; exact (List.append_nil _).symm⟩
      have shown := Shows.intro (m := m') id _ held'
      rwa [box, inner] at shown
    · exact ⟨_, .single (.work m now allowance target), .intro id worker held, (List.append_nil _).symm⟩

/-- Whatever happens to a queued sink one thing after the other, happens to its queue and to the sink behind. -/
theorem Shows.reaches_acts {m : Manned} {sink : Sink} (shown : Shows m sink) (actions : List Action) :
    ∃ m', ReflTransGen Manned.Step m m' ∧ Shows m' (actions.foldl act sink) ∧
      m'.queue.offered = m.queue.offered ++ actions.filterMap Action.event? := by
  induction actions generalizing m sink with
  | nil => exact ⟨m, .refl, shown, (List.append_nil _).symm⟩
  | cons action later ih =>
    obtain ⟨t, step, next, offered⟩ := shown.reaches_act action
    obtain ⟨m', steps, last, offered'⟩ := ih next
    refine ⟨m', step.trans steps, last, ?_⟩
    rw [offered', offered, List.append_assoc, List.filterMap_cons]
    cases action.event? <;> rfl

end Sink

/-- Three events for a queue that holds one. -/
def Event.clearA : Event := .clear "a"
def Event.clearB : Event := .clear "b"
def Event.clearC : Event := .clear "c"

end Admission
