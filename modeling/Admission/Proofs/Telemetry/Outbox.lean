import Mathlib.Data.Nat.Init
import Mathlib.Logic.Relation
import Admission.Proofs.Sink.Taking

/-!
# Outboxes

Whoever reports events has an outbox. An event that is put into it is looked at once, and then again by the
background, as long as the sink is not done with it. What the sink makes of an event at each look, and when
the next look is, is left open.

However that goes, the sink is called with the events that it takes and with no others, and with none of
them twice. If it takes every event at once, they also reach it in order. If it never refuses one and every
wait for it comes to an end, it is called with all of them in the end.

## Main definitions

* `Outbox`: the events that were put into an outbox, and those that the sink was called with.
* `Outbox.Setup`: the sink of an outbox, and whether there is a background.
* `Outbox.Step`: the background looks at an event again.
* `Outbox.Faithful`: what an outbox does with the events that are reported.

## Main results

* `Outbox.Kept.put`, `Outbox.Step.kept`: what an outbox keeps up at every step.
* `Outbox.Runs.settles`: a background that is fair is done with all events at some time.
* `Outbox.Kept.faithful`: what is kept up is enough for an outbox to be faithful.
-/

namespace Admission

open Relation

-- The zero of a sum of natural numbers is the core library's, whatever else is in scope.
attribute [local instance (high)] Zero.ofOfNat0

namespace Outbox

/-- An event in an outbox. -/
structure Item where
  event : Event
  stage : Delivery.Stage
  deriving DecidableEq, Repr

/-- What an outbox works with. -/
structure Setup where
  /-- Whether there is a background, which looks at events again. -/
  background : Bool
  /-- What the sink can make of an event that is looked at. -/
  Looks : Delivery.Stage → Delivery.Stage → Prop
  becomes : ∀ {stage next : Delivery.Stage}, Looks stage next → stage.Becomes next

namespace Setup

/-- The sink is called with every event, and is done with it, at the first look. -/
def Prompt (w : Setup) : Prop :=
  ∀ stage, w.Looks .offered stage → stage.isOver = true ∧ stage.isCalled = true

/-- The sink never fails to become ready, but may take its time. -/
def Willing (w : Setup) : Prop :=
  ∀ stage, w.Looks .offered stage → stage.isOver = true → stage.isCalled = true

end Setup

end Outbox

/-- The events that were put into an outbox, oldest first, and those that the sink was called with, in the
order of the calls. -/
structure Outbox where
  items : List Outbox.Item
  called : List Event

namespace Outbox

/-- An outbox that nothing was put into. -/
def empty : Outbox := ⟨[], []⟩

/-- All events. -/
def events (o : Outbox) : List Event := o.items.map (·.event)

/-- The events that the sink was called with, by what has become of them. -/
def reached (o : Outbox) : List Event := (o.items.filter (·.stage.isCalled)).map (·.event)

/-- The events that are on their way. -/
def unfinished (o : Outbox) : List Item := o.items.filter (!·.stage.isOver)

/-- Nothing is left to be done. -/
def Settled (o : Outbox) : Prop := ∀ item ∈ o.items, item.stage.isOver = true

/-- An outbox with a further event, which the first look has brought to a stage. -/
def put (o : Outbox) (event : Event) (stage : Delivery.Stage) : Outbox where
  items := o.items ++ [⟨event, stage⟩]
  called := o.called ++ if stage.isCalled then [event] else []

/-- The background looks at an event; the sink is called with it at most once. -/
inductive Step (w : Setup) : Outbox → Outbox → Prop
  | look (before after : List Item) (called : List Event) (event : Event) {stage next : Delivery.Stage}
    (background : w.background = true) (looks : w.Looks stage next) :
    Step w ⟨before ++ ⟨event, stage⟩ :: after, called⟩
      ⟨before ++ ⟨event, next⟩ :: after, called ++ stage.call event next⟩

variable {w : Setup} {o o' : Outbox} {event : Event} {stage : Delivery.Stage}

theorem settled_iff : o.Settled ↔ o.unfinished = [] := by
  simp [Settled, unfinished]

/-! ### What outboxes keep up -/

/-- The sink was called with just the events that it has taken, and with each of them once. -/
def Exact (o : Outbox) : Prop := o.called.Perm o.reached

theorem Exact.put (exact : o.Exact) (event : Event) (stage : Delivery.Stage) : (o.put event stage).Exact := by
  rw [Exact, reached, Outbox.put, List.filter_append, List.map_append]
  refine List.Perm.append exact ?_
  cases called : stage.isCalled <;> simp [called]

theorem Step.events (step : Step w o o') : o'.events = o.events := by
  cases step with
  | look before after called event background looks => simp [Outbox.events]

theorem Step.exact (step : Step w o o') (exact : o.Exact) : o'.Exact := by
  cases step with
  | @look before after calls event stage next background looks =>
    have kept := (w.becomes looks).2
    cases called : stage.isCalled with
    | true => simpa [Exact, reached, Delivery.Stage.call, called, kept called] using exact
    | false =>
      cases new : next.isCalled with
      | false => simpa [Exact, reached, Delivery.Stage.call, called, new] using exact
      | true =>
        -- The call is the last so far, whatever the place of the event in the outbox.
        have exact : calls.Perm ((before.filter (·.stage.isCalled)).map (·.event) ++
            (after.filter (·.stage.isCalled)).map (·.event)) := by
          simpa [Exact, reached, called] using exact
        have last := (List.perm_append_singleton event calls).trans
          ((exact.cons event).trans List.perm_middle.symm)
        simpa [Exact, reached, Delivery.Stage.call, called, new] using last

/-- No event that is over was refused. -/
def Accepted (o : Outbox) : Prop :=
  ∀ item ∈ o.items, item.stage.isOver = true → item.stage.isCalled = true

theorem Accepted.put (accepted : o.Accepted) (willing : w.Willing) (looks : w.Looks .offered stage) :
    (o.put event stage).Accepted := by
  intro item among
  rcases List.mem_append.1 among with before | new
  · exact accepted item before
  · cases List.mem_singleton.1 new
    exact willing stage looks

theorem Step.accepted (step : Step w o o') (willing : w.Willing) (accepted : o.Accepted) :
    o'.Accepted := by
  cases step with
  | @look before after calls event stage next background looks =>
    intro item among isOver
    simp only [List.mem_append, List.mem_cons] at among
    rcases among with among | rfl | among
    · exact accepted item (by simp [among]) isOver
    · cases stage with
      | offered => exact willing next looks isOver
      | taken => exact (w.becomes looks).2 rfl
      | «over» _ => cases (w.becomes looks).1
    · exact accepted item (by simp [among]) isOver

/-- If the sink refused nothing and is done with everything, it was called with all events. -/
theorem Exact.perm_events (exact : o.Exact) (accepted : o.Accepted) (settled : o.Settled) :
    o.called.Perm o.events := by
  have all : o.items.filter (·.stage.isCalled) = o.items :=
    List.filter_eq_self.2 fun item among => accepted item among (settled item among)
  rw [Exact, reached, all] at exact
  exact exact

/-- Everything was over at the first look, and the sink was called with all events in order. -/
structure Immediate (o : Outbox) : Prop where
  settled : o.Settled
  called : o.called = o.events

theorem Immediate.put (immediate : o.Immediate) (prompt : w.Prompt) (looks : w.Looks .offered stage) :
    (o.put event stage).Immediate where
  settled item among := by
    rcases List.mem_append.1 among with before | new
    · exact immediate.settled item before
    · cases List.mem_singleton.1 new
      exact (prompt stage looks).1
  called := by
    simp only [Outbox.put, Outbox.events, List.map_append, (prompt stage looks).2, if_true]
    rw [immediate.called]
    rfl

/-- Where nothing is left to be done, the background does nothing. -/
theorem Step.not_settled (step : Step w o o') : ¬ o.Settled := by
  cases step with
  | @look before after calls event stage next background looks =>
    intro settled
    have isOver : stage.isOver = true := settled ⟨event, stage⟩ (by simp)
    rw [(w.becomes looks).1] at isOver
    cases isOver

/-! ### Fair backgrounds -/

/-- How many stages are still to come at most. -/
def rest (o : Outbox) : Nat := (o.items.map (·.stage.rank)).sum

/-- A look leaves all events as they were, or less to be done. -/
theorem Step.rest_lt (step : Step w o o') : o'.items = o.items ∨ o'.rest < o.rest := by
  cases step with
  | @look before after calls event stage next background looks =>
    by_cases moved : stage = next
    · exact .inl (by rw [moved])
    · have less := (w.becomes looks).rank_lt moved
      exact .inr (by simpa [rest] using less)

/-- What becomes of an outbox while nothing is put into it: at every moment the background may look at an
event. -/
def Runs (w : Setup) (run : Nat → Outbox) : Prop := ∀ n, ReflGen (Step w) (run n) (run (n + 1))

/-- Every wait comes to an end: whatever is on its way moves on at some time. -/
def Fair (run : Nat → Outbox) : Prop :=
  ∀ (n i : Nat) (item : Item), (run n).items[i]? = some item → item.stage.isOver = false →
    ∃ m, n ≤ m ∧ (run m).items[i]? ≠ some item

namespace Runs

variable {run : Nat → Outbox} (runs : Runs w run)
include runs

theorem rest_lt {n m : Nat} (later : n ≤ m) :
    (run m).items = (run n).items ∨ (run m).rest < (run n).rest := by
  induction m, later using Nat.le_induction with
  | base => exact .inl rfl
  | succ m _ ih =>
    have next : (run (m + 1)).items = (run m).items ∨ (run (m + 1)).rest < (run m).rest := by
      rcases reflGen_iff _ _ _ |>.1 (runs m) with same | step
      · rw [same]
        exact .inl rfl
      · exact step.rest_lt
    rcases next with same | less
    · rwa [rest, same]
    · rcases ih with same | less'
      · exact .inr (by rwa [rest, rest, same] at less)
      · exact .inr (Nat.lt_trans less less')

theorem exists_settled (fair : Fair run) (n : Nat) : ∃ m, n ≤ m ∧ (run m).Settled := by
  -- What is left to be done gets less each time that something moves on.
  induction left : (run n).rest using Nat.strong_induction_on generalizing n with
  | _ left' ih =>
    by_cases settled : (run n).Settled
    · exact ⟨n, Nat.le_refl n, settled⟩
    · obtain ⟨item, pending⟩ := List.exists_mem_of_ne_nil _ (mt settled_iff.2 settled)
      obtain ⟨among, unfinished⟩ := List.mem_filter.1 pending
      obtain ⟨i, place⟩ := List.getElem?_of_mem among
      obtain ⟨m, later, moved⟩ := fair n i item place (by simpa using unfinished)
      have less : (run m).rest < left' :=
        left ▸ (runs.rest_lt later).resolve_left fun same => moved (same ▸ place)
      obtain ⟨m', later', settled⟩ := ih _ less m rfl
      exact ⟨m', Nat.le_trans later later', settled⟩

/-- Once nothing is left to be done, nothing happens any more. -/
theorem eq_of_settled {n m : Nat} (settled : (run n).Settled) (later : n ≤ m) : run m = run n := by
  induction m, later using Nat.le_induction with
  | base => rfl
  | succ m _ same =>
    rcases reflGen_iff _ _ _ |>.1 (runs m) with still | step
    · rw [still, same]
    · exact absurd (same ▸ settled) step.not_settled

/-- If every wait comes to an end, nothing is left to be done from some moment on. -/
theorem settles (fair : Fair run) : ∃ n, ∀ m, n ≤ m → (run m).Settled := by
  obtain ⟨n, -, settled⟩ := runs.exists_settled fair 0
  exact ⟨n, fun m later => by rwa [runs.eq_of_settled settled later]⟩

end Runs

/-! ### What becomes of events -/

/-- What an outbox has done with the events that were put into it, and will do. -/
structure Faithful (o : Outbox) (w : Setup) (reported : List Event) : Prop where
  events : o.events = reported
  /-- The sink was called with just the events that it has taken, and with each of them once. -/
  exact : o.called.Perm o.reached
  prompt : w.Prompt → o.called = reported
  settled : w.Willing → o.Settled → o.called.Perm reported
  settles : w.Willing → ∀ run : Nat → Outbox, run 0 = o → Runs w run → Fair run →
    ∃ n, ∀ m, n ≤ m → (run m).Settled ∧ (run m).called.Perm reported

/-- What an outbox keeps up at every step. -/
structure Kept (o : Outbox) (w : Setup) (reported : List Event) : Prop where
  events : o.events = reported
  exact : o.Exact
  immediate : w.Prompt → o.Immediate
  accepted : w.Willing → o.Accepted

theorem kept_empty (w : Setup) : empty.Kept w [] :=
  ⟨rfl, .refl _, fun _ => ⟨nofun, rfl⟩, fun _ => nofun⟩

variable {reported : List Event}

theorem Kept.put (kept : o.Kept w reported) (looks : w.Looks .offered stage) :
    (o.put event stage).Kept w (reported ++ [event]) where
  events := by rw [← kept.events, Outbox.events, Outbox.put, List.map_append]; rfl
  exact := kept.exact.put event stage
  immediate prompt := (kept.immediate prompt).put prompt looks
  accepted willing := (kept.accepted willing).put willing looks

theorem Step.kept (step : Step w o o') (kept : o.Kept w reported) : o'.Kept w reported where
  events := step.events.trans kept.events
  exact := step.exact kept.exact
  immediate prompt := absurd (kept.immediate prompt).settled step.not_settled
  accepted willing := step.accepted willing (kept.accepted willing)

theorem Runs.kept {run : Nat → Outbox} (runs : Runs w run) (kept : (run 0).Kept w reported) (n : Nat) :
    (run n).Kept w reported := by
  induction n with
  | zero => exact kept
  | succ n ih =>
    rcases reflGen_iff _ _ _ |>.1 (runs n) with still | step
    · rwa [still]
    · exact step.kept ih

/-- What an outbox keeps up is enough for it to be faithful. -/
theorem Kept.faithful (kept : o.Kept w reported) : o.Faithful w reported where
  events := kept.events
  exact := kept.exact
  prompt prompt := (kept.immediate prompt).called.trans kept.events
  settled willing settled := kept.events ▸ kept.exact.perm_events (kept.accepted willing) settled
  settles willing run start runs fair := by
    obtain ⟨n, settled⟩ := runs.settles fair
    refine ⟨n, fun m later => ⟨settled m later, ?_⟩⟩
    have kept := runs.kept (start ▸ kept) m
    exact kept.events ▸ kept.exact.perm_events (kept.accepted willing) (settled m later)

end Outbox

end Admission
