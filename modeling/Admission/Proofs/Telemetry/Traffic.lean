import Admission.Proofs.Telemetry.Outbox

/-!
# Traffic to a sink

Events are offered to a sink one after the other, and what it is not done with is moved on later, as long as
somebody looks after it. Each time it is the sink itself that says how far the event has come, and that is
another sink afterwards; in between, the workers inside it have their turns.

Seen from outside, that is an outbox: the looks are the sink's own polls, and it was called with an event when
a poll has taken it.

## Main definitions

* `Sink.Later`: what can become of a sink.
* `Sink.setup`: what a sink can make of events, now and after whatever happens to it.
* `Traffic`: a sink with the events that were offered to it, and those that it was called with.
* `Traffic.put`, `Traffic.Step`: an event is offered, and what can happen in between.
* `Traffic.Arises`: the traffic that can arise at a sink.
* `Traffic.outbox`: traffic as an outbox.

## Main results

* `Traffic.Arises.later`: what has become of the sink.
* `Traffic.Arises.posts`, `Traffic.Step.outbox`: what is offered is put into the outbox, and all else are looks.
* `Traffic.exists_look`: everything that is on its way can be moved on.
-/

namespace Admission

open Relation

namespace Sink

/-- What can happen to a sink: an event is moved on, or a worker has a turn. -/
inductive Moves : Sink → Sink → Prop
  | poll (now : Nat) (event : Event) (sink : Sink) (delivery : Delivery) (left : Nat) :
    Moves sink (sink.poll now event delivery left).sink
  | work (now allowance target : Nat) (sink : Sink) : Moves sink (sink.work now allowance target).1

/-- What can become of a sink. -/
def Later : Sink → Sink → Prop := ReflTransGen Moves

/-- What a sink can make of events, now or later. -/
def setup (background : Bool) (sink : Sink) : Outbox.Setup where
  background
  Looks stage next := ∃ (later : Sink) (now : Nat) (event : Event) (delivery : Delivery) (left : Nat),
    sink.Later later ∧ delivery.stage = stage ∧ stage.isOver = false ∧
      (later.poll now event delivery left).delivery.stage = next
  becomes := by
    rintro _ _ ⟨later, now, event, delivery, left, -, rfl, unfinished, rfl⟩
    exact later.becomes_poll now event left unfinished

end Sink

/-- An event that was offered to a sink, as far as it has come. -/
structure Traffic.Item where
  event : Event
  delivery : Delivery
  deriving DecidableEq, Repr

/-- A sink with the events that were offered to it, oldest first, and those that it was called with, in the order
of the calls. -/
structure Traffic where
  sink : Sink
  items : List Traffic.Item
  called : List Event

namespace Traffic

/-- A sink to which nothing was offered. -/
def start (sink : Sink) : Traffic := ⟨sink, [], []⟩

/-- An event is offered to the sink, at a moment and with an allowance. -/
def put (x : Traffic) (now : Nat) (event : Event) (left : Nat) : Traffic :=
  let p := x.sink.poll now event .offered left
  { sink := p.sink
    items := x.items ++ [⟨event, p.delivery⟩]
    called := x.called ++ Delivery.Stage.offered.call event p.delivery.stage }

/-- An event is offered to the sink, if there is one. -/
def post (x : Traffic) (now left : Nat) : Option Event → Traffic
  | none => x
  | some event => x.put now event left

/-- What can happen while nothing is offered. -/
inductive Step (background : Bool) : Traffic → Traffic → Prop
  /-- The background has the sink move an event on. -/
  | look (now left : Nat) (sink : Sink) (before after : List Item) (called : List Event) (event : Event)
    (delivery : Delivery) (given : background = true) (unfinished : delivery.outcome? = none) :
    Step background ⟨sink, before ++ ⟨event, delivery⟩ :: after, called⟩
      ⟨(sink.poll now event delivery left).sink,
        before ++ ⟨event, (sink.poll now event delivery left).delivery⟩ :: after,
        called ++ delivery.stage.call event (sink.poll now event delivery left).delivery.stage⟩
  /-- A worker inside the sink has a turn. -/
  | work (now allowance target : Nat) (x : Traffic) :
    Step background x { x with sink := (x.sink.work now allowance target).1 }

/-- The traffic that can arise at a sink, with or without a background. -/
inductive Arises (background : Bool) (first : Sink) : Traffic → Prop
  | start : Arises background first (start first)
  | put {x : Traffic} (now : Nat) (event : Event) (left : Nat) (before : Arises background first x) :
    Arises background first (x.put now event left)
  | step {x x' : Traffic} (before : Arises background first x) (step : Step background x x') :
    Arises background first x'

/-! ### Traffic as an outbox -/

/-- What an item is for an outbox. -/
def Item.posted (item : Item) : Outbox.Item := ⟨item.event, item.delivery.stage⟩

/-- The outbox of what was offered to the sink. -/
def outbox (x : Traffic) : Outbox := ⟨x.items.map Item.posted, x.called⟩

/-- The item, if the sink is not done with it. -/
def Item.rest (item : Item) : List Item := if item.delivery.outcome?.isNone then [item] else []

/-- The events that are on their way. -/
def unfinished (x : Traffic) : List Item := x.items.filter (·.delivery.outcome?.isNone)

variable {background : Bool} {first : Sink} {x x' : Traffic}

/-- Nothing is left to be done exactly if nothing is on its way. -/
theorem settled_outbox_iff : x.outbox.Settled ↔ x.unfinished = [] := by
  have ended (item : Item) : item.posted.stage.isOver = item.delivery.outcome?.isSome := item.delivery.isOver_stage
  simp [Outbox.Settled, outbox, unfinished, ended, Option.isSome_iff_ne_none]

theorem unfinished_put (x : Traffic) (now : Nat) (event : Event) (left : Nat) :
    (x.put now event left).unfinished =
      x.unfinished ++ Item.rest ⟨event, (x.sink.poll now event .offered left).delivery⟩ := by
  rw [unfinished, put, List.filter_append, List.filter_cons]
  rfl

theorem Step.later (step : Step background x x') : x.sink.Moves x'.sink := by
  cases step with
  | look now left sink before after called event delivery => exact .poll now event sink delivery left
  | work now allowance target => exact .work now allowance target x.sink

namespace Arises

/-- What has become of the sink. -/
theorem later (arises : Arises background first x) : first.Later x.sink := by
  induction arises with
  | start => exact .refl
  | @put x now event left _ ih => exact ih.tail (.poll now event x.sink .offered left)
  | step _ step ih => exact ih.tail step.later

theorem steps (arises : Arises background first x) (steps : ReflTransGen (Step background) x x') :
    Arises background first x' := by
  induction steps with
  | refl => exact arises
  | tail _ step ih => exact ih.step step

theorem post (arises : Arises background first x) (now left : Nat) (event : Option Event) :
    Arises background first (x.post now left event) := by
  cases event with
  | none => exact arises
  | some event => exact arises.put now event left

/-- What is offered to the sink can be made of it. -/
theorem looks_put (arises : Arises background first x) (now : Nat) (event : Event) (left : Nat) :
    (first.setup background).Looks .offered (x.sink.poll now event .offered left).delivery.stage :=
  ⟨x.sink, now, event, .offered, left, arises.later, rfl, rfl, rfl⟩

/-- Whatever happens in between are looks into the outbox, or nothing for it. -/
theorem outbox_step (arises : Arises background first x) (step : Step background x x') :
    ReflGen (Outbox.Step (first.setup background)) x.outbox x'.outbox := by
  cases step with
  | look now left sink before after called event delivery given unfinished =>
    have looks : (first.setup background).Looks delivery.stage
        (sink.poll now event delivery left).delivery.stage := by
      refine ⟨sink, now, event, delivery, left, arises.later, rfl, ?_, rfl⟩
      rw [delivery.isOver_stage, unfinished]
      rfl
    rw [outbox, outbox, List.map_append, List.map_append]
    exact .single (.look _ _ called event given looks)
  | work now allowance target => exact .refl

theorem outbox_steps (arises : Arises background first x) (steps : ReflTransGen (Step background) x x') :
    ReflTransGen (Outbox.Step (first.setup background)) x.outbox x'.outbox := by
  induction steps with
  | refl => exact .refl
  | tail before step ih => exact ih.trans ((arises.steps before).outbox_step step).to_reflTransGen

end Arises

/-- An event that is offered is put into the outbox. -/
theorem outbox_put (x : Traffic) (now : Nat) (event : Event) (left : Nat) :
    (x.put now event left).outbox = x.outbox.put event (x.sink.poll now event .offered left).delivery.stage := by
  rw [outbox, put, List.map_append]
  rfl

/-! ### The background -/

/-- The background can move on whatever is on its way, and leaves the others as they are. -/
theorem exists_look (now left : Nat) {item : Item} {others : List Item}
    (pending : (item :: others).Perm x.unfinished) :
    ∃ x', Step true x x' ∧ x'.sink = (x.sink.poll now item.event item.delivery left).sink ∧
      (others ++ Item.rest ⟨item.event, (x.sink.poll now item.event item.delivery left).delivery⟩).Perm
        x'.unfinished := by
  obtain ⟨among, unfinished⟩ := List.mem_filter.1 (pending.mem_iff.1 (List.mem_cons_self ..))
  obtain ⟨sink, items, called⟩ := x
  obtain ⟨before, after, rfl⟩ := List.append_of_mem among
  have pending : others.Perm (before.filter (·.delivery.outcome?.isNone) ++
      after.filter (·.delivery.outcome?.isNone)) := by
    rw [Traffic.unfinished, List.filter_append, List.filter_cons, if_pos unfinished] at pending
    exact (pending.trans List.perm_middle).cons_inv
  refine ⟨_, .look now left sink before after called item.event item.delivery rfl
    (Option.isNone_iff_eq_none.1 unfinished), rfl, ?_⟩
  rw [Traffic.unfinished, List.filter_append, List.filter_cons, Item.rest]
  split
  · exact (List.perm_append_singleton ..).trans ((pending.cons _).trans List.perm_middle.symm)
  · rw [List.append_nil]
    exact pending

end Traffic

end Admission
