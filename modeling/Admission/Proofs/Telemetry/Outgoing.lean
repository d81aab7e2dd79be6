import Admission.Proofs.Telemetry.Traffic
import Admission.Proofs.Telemetry.Waiting

/-!
# Events on their way

Telemetry is traffic to its sink. An event that is reported is offered to the sink at once; the turns of the
background move on the events that are still on their way, or are turns of workers inside the sink.

## Main definitions

* `Telemetry.Shows`: telemetry has the sink of some traffic, and pending what is on its way there.
* `Telemetry.Carried`: one state of telemetry comes after another by the background alone.

## Main results

* `Telemetry.passing_carried`: waiting moves on what is pending.
* `Telemetry.Shows.emit`: reporting an event offers it to the sink.
* `Sink.prompt_setup`, `Sink.willing_setup`: which sinks are called at once, and which refuse nothing.
-/

namespace Admission

open Relation

/-- The event of an emission, as far as it has come. -/
def Emission.item (e : Emission) : Traffic.Item := ⟨e.event, e.delivery⟩

namespace Telemetry

/-! ### Telemetry as traffic -/

/-- Telemetry has the sink of some traffic, and has just those events pending that are on their way there. -/
structure Shows (background : Bool) (x : Traffic) (t : Telemetry) : Prop where
  sink : t.sink = x.sink
  /-- Without a background, nothing is looked at again. -/
  pending : (t.pending.map Emission.item).Perm (if background then x.unfinished else [])
  background : t.background = background

variable {background : Bool} {x : Traffic} {t : Telemetry}

/-- With a background, nothing is left to be done exactly if nothing is pending. -/
theorem Shows.settled_iff (shown : Shows true x t) : x.outbox.Settled ↔ t.pending = [] := by
  have pending := shown.pending
  rw [if_pos rfl] at pending
  rw [Traffic.settled_outbox_iff]
  constructor
  · intro none
    rw [none] at pending
    exact List.map_eq_nil_iff.1 pending.eq_nil
  · intro none
    rw [none] at pending
    exact pending.nil_eq.symm

/-- What one state of telemetry shows of some traffic, another one shows after some steps. -/
def Carried (background : Bool) (t t' : Telemetry) : Prop :=
  ∀ x, Shows background x t → ∃ x', ReflTransGen (Traffic.Step background) x x' ∧ Shows background x' t'

/-- An emission that is found and taken out leaves all the others. -/
theorem pending_eraseP {pending : List Emission} {id : Nat} {e : Emission}
    (found : pending.find? (·.id = id) = some e) : pending.Perm (e :: pending.eraseP (·.id = id)) := by
  obtain ⟨same, before, after, rfl, others⟩ := List.find?_eq_some_iff_append.1 found
  have erased : (before ++ e :: after).eraseP (·.id = id) = before ++ after := by
    rw [List.eraseP_append_right _ (by simpa using others), List.eraseP_cons, same, cond_true]
  rw [erased]
  exact List.perm_middle

/-- Whatever is pending was left to a background, and can be moved on. -/
theorem Shows.exists_look (shown : Shows background x t) {e : Emission} {others : List Emission}
    (apart : t.pending.Perm (e :: others)) (left : Nat) :
    background = true ∧ ∃ x', Traffic.Step true x x' ∧
      x'.sink = (t.sink.poll t.now e.event e.delivery left).sink ∧
      (others.map Emission.item ++
        Traffic.Item.rest ⟨e.event, (t.sink.poll t.now e.event e.delivery left).delivery⟩).Perm
        x'.unfinished := by
  have item := (apart.map Emission.item).symm.trans shown.pending
  cases background with
  | false => exact absurd item.eq_nil (by simp)
  | true =>
    rw [shown.sink]
    exact ⟨rfl, Traffic.exists_look t.now left item⟩

/-- A turn of an emission moves its event on, and a turn of a worker is one of the sink's. -/
theorem carried_run (t : Telemetry) (task : Task) : Carried background t (t.run task) := by
  intro x shown
  cases task with
  | worker id =>
    refine ⟨_, .single (.work t.now Turn.allowance id x), ?_⟩
    rw [← shown.sink]
    exact ⟨rfl, shown.pending, shown.background⟩
  | emission id =>
    rw [run]
    split
    · exact ⟨x, .refl, shown⟩
    case h_2 e found =>
      obtain ⟨rfl, x', step, sink, left⟩ := shown.exists_look (pending_eraseP found) Turn.allowance
      refine ⟨x', .single step, ?_⟩
      dsimp only
      rw [Traffic.Item.rest] at left
      cases ended : (t.sink.poll t.now e.event e.delivery Turn.allowance).delivery.outcome? with
      | some outcome => exact ⟨sink.symm, by simpa [absorb, ended] using left, shown.background⟩
      | none =>
        exact ⟨sink.symm, by simpa [schedule, absorb, Emission.item, ended] using left, shown.background⟩

/-- Whoever waits lets the background move on what is pending. -/
theorem passing_carried : Passing (Carried background) where
  refl t x shown := ⟨x, .refl, shown⟩
  trans first second x shown := by
    obtain ⟨x', steps, shown⟩ := first x shown
    obtain ⟨x'', more, shown⟩ := second x' shown
    exact ⟨x'', steps.trans more, shown⟩
  timed _ _ _ _ x shown := ⟨x, .refl, shown.sink, shown.pending, shown.background⟩
  run := carried_run

/-- Whoever reports an event offers it to the sink. -/
theorem Shows.emit (shown : Shows background x t) (event : Event) :
    Shows background (x.put t.now event t.left) (t.emit event) := by
  obtain ⟨sink, pending, same⟩ := shown
  have polled : (t.sink.poll t.now event .offered t.left).sink = (x.put t.now event t.left).sink := by
    rw [sink]
    rfl
  have left := x.unfinished_put t.now event t.left
  rw [← sink, Traffic.Item.rest] at left
  rw [Telemetry.emit]
  dsimp only
  -- An event that is not over at once goes on in the background, if there is one.
  cases ended : (t.sink.poll t.now event .offered t.left).delivery.outcome? with
  | some outcome => exact ⟨polled, by simpa [absorb, left, ended] using pending, same⟩
  | none =>
    cases background with
    | true =>
      rw [if_pos same]
      exact ⟨polled, by simpa [schedule, absorb, Emission.item, left, ended] using pending.append_right _, same⟩
    | false =>
      rw [if_neg (by simp [same])]
      exact ⟨polled, pending, same⟩

theorem Shows.note (shown : Shows background x t) (record : Record) :
    Shows background x (t.note record) := ⟨shown.sink, shown.pending, shown.background⟩

end Telemetry

/-! ### Prompt and willing sinks -/

theorem Polled.exists_sink_slept (now till : Nat) (kind : Probe) (calls : Nat) (inner : Sink) (left : Nat)
    (goOn : Nat → Polled) :
    ∃ inner', (slept now till kind calls inner left goOn).sink = .probe kind calls inner' := by
  rw [slept]
  split
  · exact ⟨inner, rfl⟩
  · split
    · exact ⟨inner, rfl⟩
    · exact ⟨(goOn (left - 1)).sink, rfl⟩

namespace Sink

/-- Whether every event is handled or left in a mailbox as soon as it is offered. -/
def isPrompt : Sink → Bool
  | .fanOut a b => a.isPrompt && b.isPrompt
  | .probe .. => false
  | _ => true

/-- Whether the sink fails to become ready. -/
def isRefusing : Sink → Bool
  | .probe .refusing _ _ => true
  | _ => false

/-- How the sink treats what it is offered, without all that it remembers and what is behind it. -/
def outline : Sink → Sink
  | .fanOut a b => .fanOut a.outline b.outline
  | .probe kind _ _ => .probe kind 0 .absent
  | _ => .absent

variable (now : Nat) (event : Event) (sink : Sink) (delivery : Delivery) (left : Nat)

/-- A probe stays a probe of its kind, whatever becomes of the sink behind it. -/
theorem exists_sink_poll_probe (kind : Probe) (calls : Nat) (inner : Sink) :
    ∃ calls' inner',
      (poll now event (.probe kind calls inner) delivery left).sink = .probe kind calls' inner' := by
  cases delivery with
  | asleep till =>
    rw [poll]
    exact ⟨calls, Polled.exists_sink_slept ..⟩
  | offered =>
    cases kind with
    | slow delay => exact ⟨calls + 1, Polled.exists_sink_slept ..⟩
    | _ => exact ⟨_, _, rfl⟩
  | _ => cases kind <;> exact ⟨_, _, rfl⟩

theorem outline_poll : (sink.poll now event delivery left).sink.outline = sink.outline := by
  induction sink generalizing delivery left with
  | fanOut a b first second =>
    cases delivery with
    | offered => exact congrArg₂ _ (first ..) (second ..)
    | split lead da db => cases lead <;> exact congrArg₂ _ (first ..) (second ..)
    | _ => rfl
  | queued id mailbox worker inner => cases worker <;> cases delivery <;> rfl
  | probe kind calls inner =>
    obtain ⟨calls', inner', same⟩ := exists_sink_poll_probe now event delivery left kind calls inner
    rw [same]
    rfl
  | _ => cases delivery <;> rfl

theorem outline_work (allowance target : Nat) :
    (sink.work now allowance target).1.outline = sink.outline := by
  induction sink with
  | fanOut a b first second => exact congrArg₂ _ first second
  | queued id mailbox worker inner => rw [work]; split <;> rfl
  | _ => rfl

theorem isPrompt_outline : sink.outline.isPrompt = sink.isPrompt := by
  induction sink with
  | fanOut a b first second => exact congrArg₂ _ first second
  | _ => rfl

theorem isRefusing_outline : sink.outline.isRefusing = sink.isRefusing := by
  cases sink with
  | probe kind calls inner => cases kind <;> rfl
  | _ => rfl

variable {sink} {later : Sink}

/-- Whatever happens to a sink, it keeps its outline. -/
theorem Later.outline_eq (reached : sink.Later later) : later.outline = sink.outline := by
  induction reached with
  | refl => rfl
  | tail _ move same =>
    cases move with
    | poll now event sink delivery left => rw [outline_poll, same]
    | work now allowance target sink => rw [outline_work, same]

theorem poll_prompt (prompt : sink.isPrompt = true) :
    (sink.poll now event .offered left).delivery.outcome?.isSome = true := by
  induction sink generalizing left with
  | fanOut a b first second =>
    obtain ⟨one, other⟩ := Bool.and_eq_true_iff.1 prompt
    have one := first left one
    have other := second (a.poll now event .offered left).left other
    rw [poll, Polled.both]
    dsimp only
    cases da : (a.poll now event .offered left).delivery with
    | «over» first =>
      cases db : (b.poll now event .offered (a.poll now event .offered left).left).delivery with
      | «over» second => rfl
      | _ => simp [db, Delivery.outcome?] at other
    | _ => simp [da, Delivery.outcome?] at one
  | queued id mailbox worker inner => cases worker <;> rfl
  | probe kind calls inner => cases prompt
  | _ => rfl

theorem isRefusing_of_poll {error : SinkError}
    (refused : (sink.poll now event .offered left).delivery = .over (.refused error)) :
    sink.isRefusing = true := by
  have untaken {d : Delivery} (taken : d.Taken) : d ≠ .over (.refused error) := taken.2 error
  cases sink with
  | fanOut a b => exact absurd refused (untaken (Polled.taken_both ..))
  | queued id mailbox worker inner => cases worker <;> cases refused
  | probe kind calls inner =>
    cases kind with
    | refusing => rfl
    | slow delay => exact absurd refused (untaken (Polled.taken_slept ..))
    | _ => cases refused
  | _ => cases refused

/-- Unless it fails to become ready, a sink takes every event in the end. -/
theorem willing_setup (background : Bool) (accepts : sink.isRefusing = false) :
    (sink.setup background).Willing := by
  rintro _ ⟨later, now, event, delivery, left, reached, offered, -, rfl⟩ isOver
  cases Delivery.stage_eq_offered_iff.1 offered
  rcases later.poll_offered now event left with ⟨same, -⟩ | ⟨error, refused, -⟩ | taken
  · rw [same] at isOver
    cases isOver
  · have refusing := isRefusing_of_poll now event left refused
    rw [← isRefusing_outline, reached.outline_eq, isRefusing_outline, accepts] at refusing
    cases refusing
  · exact Delivery.isCalled_stage_iff.2 taken

/-- Without a probe in front, a sink takes every event at once and is done with it. -/
theorem prompt_setup (background : Bool) (prompt : sink.isPrompt = true) :
    (sink.setup background).Prompt := by
  have accepts : sink.isRefusing = false := by
    cases sink with
    | probe kind calls inner => cases prompt
    | _ => rfl
  intro stage looks
  refine (fun isOver => ⟨isOver, willing_setup background accepts stage looks isOver⟩) ?_
  obtain ⟨later, now, event, delivery, left, reached, offered, -, rfl⟩ := looks
  cases Delivery.stage_eq_offered_iff.1 offered
  rw [← isPrompt_outline, ← reached.outline_eq, isPrompt_outline] at prompt
  rw [Delivery.isOver_stage, poll_prompt now event left prompt]

end Sink

end Admission
