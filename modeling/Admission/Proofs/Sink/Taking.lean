import Admission.Sink.Basic

/-!
# When a sink takes an event

An event that is offered to a sink stays with whoever offers it until the sink takes it or refuses it, and
the sink does not change before. Once it is taken it is never offered again and never refused.

## Main definitions

* `Delivery.Taken`: the sink has taken the event, and may be done with it.
* `Delivery.Outcome.isRefusal`: the sink never took the event.
* `Delivery.Stage`, `Delivery.stage`: how far an event has come, whatever it waits for.
* `Delivery.Stage.call`: the call that a sink gets when an event comes to a stage.

## Main results

* `Sink.poll_offered`: what becomes of an event that is offered.
* `Sink.poll_taken`: an event that is taken stays so.
* `Sink.becomes_poll`: a look moves an event on, if at all.
-/

namespace Admission

/-- Whether the sink never took the event. -/
def Delivery.Outcome.isRefusal : Outcome → Bool
  | .refused _ => true
  | .handled | .failed _ => false

/-- The sink has taken the event. -/
def Delivery.Taken (d : Delivery) : Prop :=
  d ≠ .offered ∧ ∀ error, d ≠ .over (.refused error)

namespace Delivery

theorem taken_within (d : Delivery) : (Delivery.within d).Taken := ⟨nofun, fun _ => nofun⟩

theorem taken_asleep (till : Nat) : (Delivery.asleep till).Taken := ⟨nofun, fun _ => nofun⟩

theorem taken_split (lead : Branch) (a b : Delivery) : (Delivery.split lead a b).Taken :=
  ⟨nofun, fun _ => nofun⟩

theorem taken_handled : (Delivery.over .handled).Taken := ⟨nofun, fun _ => nofun⟩

theorem taken_failed (error : SinkError) : (Delivery.over (.failed error)).Taken := ⟨nofun, fun _ => nofun⟩

/-- What goes wrong behind a sink is no refusal of its own. -/
theorem taken_passedOn (o : Outcome) : (Delivery.over o.passedOn).Taken := by
  rw [Outcome.passedOn]
  cases o.error? with
  | none => exact taken_handled
  | some error => exact taken_failed error

theorem taken_joined (first second : Outcome) : (Delivery.over (first.joined second)).Taken := by
  rw [Outcome.joined]
  split
  · exact taken_failed _
  · exact taken_failed _
  · exact taken_handled

/-- What is taken does not end with a refusal. -/
theorem Taken.isRefusal {d : Delivery} (taken : d.Taken) {outcome : Outcome}
    (ended : d.outcome? = some outcome) : outcome.isRefusal = false := by
  cases d with
  | «over» ending =>
    cases ended
    cases outcome with
    | refused error => exact absurd rfl (taken.2 error)
    | _ => rfl
  | _ => cases ended

/-! ### Stages -/

/-- How far an event has come on its way to a sink. -/
inductive Stage
  /-- The sink was not called with it. -/
  | offered
  /-- The sink was called with it and is not done. -/
  | taken
  | over (outcome : Outcome)
  deriving DecidableEq, Repr

namespace Stage

/-- Whether the sink was called with the event. -/
def isCalled : Stage → Bool
  | .offered => false
  | .taken => true
  | .over outcome => !outcome.isRefusal

/-- Whether nothing is left to be done with the event. -/
def isOver : Stage → Bool
  | .over _ => true
  | .offered | .taken => false

/-- The call that a sink gets when an event comes from one stage to another, if any. -/
def call (event : Event) (stage next : Stage) : List Event :=
  if stage.isCalled then [] else if next.isCalled then [event] else []

theorem call_self (event : Event) (stage : Stage) : stage.call event stage = [] := by
  rw [call]
  split
  · rfl
  · rfl

/-- The stages that can come next: a call is never taken back, and what is over stays so. -/
def Becomes (stage next : Stage) : Prop :=
  stage.isOver = false ∧ (stage.isCalled = true → next.isCalled = true)

/-- How many stages are still to come at most. -/
def rank : Stage → Nat
  | .offered => 2
  | .taken => 1
  | .over _ => 0

/-- A stage that comes next is the same or a later one. -/
theorem Becomes.rank_lt {stage next : Stage} (becomes : stage.Becomes next) (moved : stage ≠ next) :
    next.rank < stage.rank := by
  obtain ⟨unfinished, called⟩ := becomes
  cases stage with
  | offered =>
    cases next with
    | offered => exact absurd rfl moved
    | taken => exact Nat.one_lt_two
    | «over» _ => exact Nat.two_pos
  | taken =>
    cases next with
    | offered => cases called rfl
    | taken => exact absurd rfl moved
    | «over» _ => exact Nat.one_pos
  | «over» _ => cases unfinished

end Stage

/-- How far an event has come, whatever it waits for. -/
def stage : Delivery → Stage
  | .offered => .offered
  | .asleep _ | .yielded | .within _ | .split .. => .taken
  | .over outcome => .over outcome

theorem isCalled_stage_iff {d : Delivery} : d.stage.isCalled = true ↔ d.Taken := by
  cases d with
  | offered => exact ⟨nofun, fun taken => absurd rfl taken.1⟩
  | asleep till => exact ⟨fun _ => taken_asleep till, fun _ => rfl⟩
  | yielded => exact ⟨fun _ => ⟨nofun, fun _ => nofun⟩, fun _ => rfl⟩
  | within inner => exact ⟨fun _ => taken_within inner, fun _ => rfl⟩
  | split lead first second => exact ⟨fun _ => taken_split lead first second, fun _ => rfl⟩
  | «over» outcome =>
    cases outcome with
    | handled => exact ⟨fun _ => taken_handled, fun _ => rfl⟩
    | refused error => exact ⟨nofun, fun taken => absurd rfl (taken.2 error)⟩
    | failed error => exact ⟨fun _ => taken_failed error, fun _ => rfl⟩

theorem stage_eq_offered_iff {d : Delivery} : d.stage = .offered ↔ d = .offered := by
  cases d <;> simp [stage]

theorem isOver_stage (d : Delivery) : d.stage.isOver = d.outcome?.isSome := by
  cases d <;> rfl

end Delivery

namespace Polled

open Delivery

theorem taken_behind (kind : Probe) (calls : Nat) (p : Polled) : (p.behind kind calls).delivery.Taken := by
  rw [behind]
  cases p.delivery with
  | «over» outcome => exact taken_passedOn outcome
  | _ => exact taken_within _

theorem taken_slept (now till : Nat) (kind : Probe) (calls : Nat) (inner : Sink) (left : Nat)
    (goOn : Nat → Polled) : (slept now till kind calls inner left goOn).delivery.Taken := by
  rw [slept]
  split
  · exact taken_asleep till
  · split
    · exact taken_asleep till
    · exact taken_behind ..

theorem taken_both (lead : Branch) (a b : Polled) (effects : Effects) (left : Nat) :
    (both lead a b effects left).delivery.Taken := by
  rw [both]
  cases a.delivery <;> cases b.delivery <;> first | exact taken_joined _ _ | exact taken_split ..

end Polled

namespace Sink

open Delivery Polled

variable (now : Nat) (event : Event) (sink : Sink) (left : Nat)

/-- An event that is offered is still offered, or refused, by a sink that has not changed; or it is
taken. -/
theorem poll_offered :
    ((sink.poll now event .offered left).delivery = .offered ∧
        (sink.poll now event .offered left).sink = sink) ∨
      (∃ error, (sink.poll now event .offered left).delivery = .over (.refused error) ∧
        (sink.poll now event .offered left).sink = sink) ∨
      (sink.poll now event .offered left).delivery.Taken := by
  cases sink with
  | absent | null | journal | memory | metrics => exact .inr (.inr taken_handled)
  | fanOut a b => exact .inr (.inr (taken_both ..))
  | queued id mailbox worker inner => cases worker <;> exact .inr (.inr taken_handled)
  | probe kind calls inner =>
    cases kind with
    | refusing => exact .inr (.inl ⟨.notReady, rfl, rfl⟩)
    | unready => exact .inl ⟨rfl, rfl⟩
    | failing => exact .inr (.inr (taken_failed _))
    | slow delay => exact .inr (.inr (taken_slept ..))
    | yielding => exact .inr (.inr ⟨nofun, fun _ => nofun⟩)

/-- An event that is taken stays so. -/
theorem poll_taken {delivery : Delivery} (taken : delivery.Taken) :
    (sink.poll now event delivery left).delivery.Taken := by
  -- Each kind of delivery moves on in one kind of sink, and rests in all others.
  cases delivery with
  | offered => exact absurd rfl taken.1
  | split lead da db =>
    cases sink with
    | fanOut a b => cases lead <;> exact taken_both ..
    | queued id mailbox worker inner => cases worker <;> exact taken
    | probe kind calls inner => cases kind <;> exact taken
    | _ => exact taken
  | asleep till =>
    cases sink with
    | probe kind calls inner => cases kind <;> exact taken_slept ..
    | queued id mailbox worker inner => cases worker <;> exact taken
    | _ => exact taken
  | yielded | within _ =>
    cases sink with
    | probe kind calls inner => cases kind <;> exact taken_behind ..
    | queued id mailbox worker inner => cases worker <;> exact taken
    | _ => exact taken
  | «over» outcome =>
    cases sink with
    | queued id mailbox worker inner => cases worker <;> exact taken
    | probe kind calls inner => cases kind <;> exact taken
    | _ => exact taken

/-- A look moves an event on, if at all. -/
theorem becomes_poll {delivery : Delivery} (unfinished : delivery.stage.isOver = false) :
    delivery.stage.Becomes (sink.poll now event delivery left).delivery.stage :=
  ⟨unfinished, fun called => isCalled_stage_iff.2 (sink.poll_taken now event left (isCalled_stage_iff.1 called))⟩

end Sink

end Admission
