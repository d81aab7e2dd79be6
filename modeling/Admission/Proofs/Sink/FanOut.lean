import Mathlib.Data.List.Forall2
import Admission.Proofs.Telemetry.Outbox

/-!
# Fan-outs

Fan-outs are put together to a tree, at whose leaves there are sinks of any kind. What such a sink does with an
event, and when, is left open: at some time it becomes ready and is called with the event, or fails to become
ready; and at some time the call is over. The leaves do this side by side, and none of them waits for another.

So every sink that becomes ready is called with the event, once; and when all of them are done, the whole tree
is, with the failure of the leftmost sink that failed, if any did. Each fan-out above that sink wraps it once.

## Main definitions

* `FanOut`: a binary tree with something at each leaf.
* `FanOut.Leg`, `FanOut.Leg.Step`: how far an event has come at a leaf, and what can happen there next.
* `FanOut.Runs`: what happens at all leaves from moment to moment.
* `FanOut.Delivered`: what has become of an event at the leaves and in the whole tree.

## Main results

* `FanOut.Runs.delivered`: what has become of an event at every moment.
* `FanOut.Runs.settles`: when every leaf is done at some time, so is the tree from some time on.
-/

namespace Admission

open Relation

namespace SinkError

/-- A failure that came through so many fan-outs. -/
def through : ℕ → SinkError → SinkError
  | 0, error => error
  | n + 1, error => .branch (through n error)

/-- Each fan-out that a failure came through puts its lead-in before it. -/
theorem message_through (n : ℕ) (error : SinkError) :
    (error.through n).message = String.join (List.replicate n "telemetry sink error: ") ++ error.message := by
  induction n with
  | zero => exact String.empty_append.symm
  | succ n ih =>
    rw [List.replicate_succ, String.join_cons]
    exact (congrArg ("telemetry sink error: " ++ ·) ih).trans (String.append_assoc ..).symm

end SinkError

/-- A binary tree of fan-outs, with something at each leaf. -/
inductive FanOut (α : Type)
  | leaf (a : α)
  | both (first second : FanOut α)
  deriving DecidableEq, Repr

namespace FanOut

variable {α β γ : Type}

/-- The tree with something else at each leaf. -/
def map (f : α → β) : FanOut α → FanOut β
  | leaf a => leaf (f a)
  | both a b => both (a.map f) (b.map f)

/-- What is at the leaves, from left to right, each with the number of fan-outs above it. -/
def leaves : FanOut α → List (ℕ × α)
  | leaf a => [(0, a)]
  | both a b => (a.leaves ++ b.leaves).map fun l => (l.1 + 1, l.2)

/-- Something holds at every leaf. -/
def All (P : α → Prop) (f : FanOut α) : Prop := ∀ l ∈ f.leaves, P l.2

theorem all_leaf {P : α → Prop} {a : α} : (leaf a).All P ↔ P a := by
  simp [All, leaves]

theorem all_both {P : α → Prop} {a b : FanOut α} : (both a b).All P ↔ a.All P ∧ b.All P := by
  rw [All, leaves, List.forall_mem_map, List.forall_mem_append]
  rfl

theorem all_map_const {b : β} (f : FanOut α) : (f.map fun _ => b).All (· = b) := by
  induction f with
  | leaf a => exact all_leaf.2 rfl
  | both a b first second => exact all_both.2 ⟨first, second⟩

/-- Two trees of one shape, with a relation between what is at the same leaf of both. -/
inductive Rel (R : α → β → Prop) : FanOut α → FanOut β → Prop
  | leaf {a : α} {b : β} (related : R a b) : Rel R (leaf a) (leaf b)
  | both {a b : FanOut α} {a' b' : FanOut β} (first : Rel R a a') (second : Rel R b b') :
    Rel R (both a b) (both a' b')

namespace Rel

variable {R : α → β → Prop} {S : α → β → Prop} {f : FanOut α} {f' : FanOut β}

theorem of_forall {R : α → α → Prop} (related : ∀ a, R a a) (f : FanOut α) : Rel R f f := by
  induction f with
  | leaf a => exact .leaf (related a)
  | both a b first second => exact .both first second

theorem trans {R : α → α → Prop} {f g h : FanOut α} (first : Rel (ReflTransGen R) f g)
    (second : Rel (ReflTransGen R) g h) : Rel (ReflTransGen R) f h := by
  induction first generalizing h with
  | leaf related =>
    cases second with
    | leaf more => exact .leaf (related.trans more)
  | both _ _ ih ih' =>
    cases second with
    | both more more' => exact .both (ih more) (ih' more')

/-- What is related stays so when it is seen in another way. -/
theorem map {α' β' : Type} {S : α' → β' → Prop} {g : α → α'} {g' : β → β'} (h : Rel R f f')
    (related : ∀ a b, R a b → S (g a) (g' b)) : Rel S (f.map g) (f'.map g') := by
  induction h with
  | leaf one => exact .leaf (related _ _ one)
  | both _ _ first second => exact .both first second

theorem leaves (h : Rel R f f') :
    List.Forall₂ (fun l l' => l.1 = l'.1 ∧ R l.2 l'.2) f.leaves f'.leaves := by
  induction h with
  | leaf related => exact .cons ⟨rfl, related⟩ .nil
  | both _ _ first second =>
    refine List.forall₂_map_left_iff.2 (List.forall₂_map_right_iff.2 ?_)
    exact List.Forall₂.imp (fun _ _ one => ⟨congrArg (· + 1) one.1, one.2⟩) (List.rel_append first second)

end Rel

/-! ### What happens at a leaf -/

/-- How far an event has come at a leaf, and the events that the sink there was called with. -/
structure Leg where
  stage : Delivery.Stage
  received : List Event
  deriving DecidableEq, Repr

namespace Leg

/-- Nothing has happened. -/
def start : Leg := ⟨.offered, []⟩

/-- What can happen next with an event. -/
inductive Step (event : Event) : Leg → Leg → Prop
  /-- The sink becomes ready, and is called with the event. -/
  | call (received : List Event) : Step event ⟨.offered, received⟩ ⟨.taken, received ++ [event]⟩
  /-- The sink fails to become ready. -/
  | refuse (received : List Event) (error : SinkError) :
    Step event ⟨.offered, received⟩ ⟨.over (.refused error), received⟩
  /-- The sink has handled the event, or has failed. -/
  | finish (received : List Event) (outcome : Delivery.Outcome) (passed : outcome.isRefusal = false) :
    Step event ⟨.taken, received⟩ ⟨.over outcome, received⟩

/-- The sink was called with the event, once, if it became ready for it, and else with nothing. -/
def Exact (event : Event) (l : Leg) : Prop := l.received = if l.stage.isCalled then [event] else []

variable {event : Event} {l l' : Leg}

theorem Step.exact (step : Step event l l') (exact : l.Exact event) : l'.Exact event := by
  cases step with
  | call received =>
    have none : received = [] := exact
    rw [Exact, none]
    rfl
  | refuse received error => exact exact
  | finish received outcome passed =>
    have once : received = [event] := exact
    rw [Exact, once, Delivery.Stage.isCalled, passed]
    rfl

theorem exact_of_steps (steps : ReflTransGen (Step event) l l') (exact : l.Exact event) : l'.Exact event := by
  induction steps with
  | refl => exact exact
  | tail _ step ih => exact step.exact ih

/-- What is over stays as it is. -/
theorem eq_of_steps (steps : ReflTransGen (Step event) l l') (ended : l.stage.isOver = true) : l' = l := by
  induction steps with
  | refl => rfl
  | tail _ step same =>
    subst same
    cases step <;> cases ended

end Leg

/-! ### What becomes of the event -/

end FanOut

/-- The outcome of what is over. -/
def Delivery.Stage.outcome? : Stage → Option Delivery.Outcome
  | .over outcome => some outcome
  | .offered | .taken => none

theorem Delivery.Stage.isSome_outcome? (stage : Stage) : stage.outcome?.isSome = stage.isOver := by
  cases stage <;> rfl

/-- Why an event was not handled. -/
def Delivery.Stage.error? (stage : Stage) : Option SinkError := stage.outcome?.bind Delivery.Outcome.error?

theorem Delivery.Outcome.error?_eq_none_iff (outcome : Outcome) : outcome.error? = none ↔ outcome = .handled := by
  cases outcome <;> simp [error?]

theorem Delivery.Stage.eq_handled_iff {stage : Stage} (ended : stage.isOver = true) :
    stage = .over .handled ↔ stage.error? = none := by
  cases stage with
  | offered | taken => cases ended
  | «over» outcome =>
    rw [Delivery.Stage.over.injEq, ← outcome.error?_eq_none_iff]
    rfl

/-- A fan-out fails as the first of its branches that fails. -/
theorem Delivery.Outcome.error?_joined (first second : Outcome) :
    (first.joined second).error? = (first.error?.or second.error?).map .branch := by
  rw [joined]
  cases first.error? <;> cases second.error? <;> rfl

namespace FanOut

/-- The outcome of a tree: a fan-out waits for both its branches, and joins their outcomes. -/
def outcome? : FanOut Leg → Option Delivery.Outcome
  | leaf l => l.stage.outcome?
  | both a b =>
    match a.outcome?, b.outcome? with
    | some first, some second => some (first.joined second)
    | _, _ => none

variable {event : Event} {f f' : FanOut Leg} {outcome : Delivery.Outcome}

theorem outcome?_both {a b : FanOut Leg} {x y : Delivery.Outcome} (first : a.outcome? = some x)
    (second : b.outcome? = some y) : (both a b).outcome? = some (x.joined y) := by
  rw [outcome?, first, second]

theorem outcome?_both_of_none {a b : FanOut Leg} (unfinished : a.outcome? = none ∨ b.outcome? = none) :
    (both a b).outcome? = none := by
  rw [outcome?]
  split
  case h_1 first second => simp [first, second] at unfinished
  case h_2 => rfl

/-- A tree is done as soon as all its leaves are. -/
theorem isSome_outcome?_iff : f.outcome?.isSome = true ↔ f.All (·.stage.isOver = true) := by
  induction f with
  | leaf l => rw [all_leaf, outcome?, l.stage.isSome_outcome?]
  | both a b first second =>
    rw [all_both, ← first, ← second, outcome?]
    cases a.outcome? <;> cases b.outcome? <;> simp

/-- The failure at a leaf, as it comes through the fan-outs above it. -/
def failure? (l : ℕ × Leg) : Option SinkError := l.2.stage.error?.map (.through l.1)

/-- A tree fails as its leftmost leaf that fails. -/
theorem error?_eq (ended : f.outcome? = some outcome) :
    outcome.error? = (f.leaves.filterMap failure?).head? := by
  induction f generalizing outcome with
  | leaf l =>
    rw [outcome?] at ended
    have failed : failure? (0, l) = outcome.error? := by
      rw [failure?, Delivery.Stage.error?, ended, Option.bind_some]
      exact Option.map_id' ..
    rw [leaves, List.filterMap_cons, failed]
    cases outcome.error? <;> rfl
  | both a b first second =>
    -- Both branches wrap their failures once more.
    have wrapped : (both a b).leaves.filterMap failure? =
        ((a.leaves ++ b.leaves).filterMap failure?).map .branch := by
      rw [leaves, List.filterMap_map, List.map_filterMap]
      refine congrArg (List.filterMap · _) (funext fun l => ?_)
      simp only [failure?, Function.comp_apply, Option.map_map]
      rfl
    rw [outcome?] at ended
    split at ended
    case h_1 x y left right =>
      cases ended
      rw [Delivery.Outcome.error?_joined, first left, second right, wrapped, List.head?_map, List.filterMap_append,
        List.head?_append]
    case h_2 => cases ended

/-- What has become of an event at the leaves and in the whole tree. -/
structure Delivered (event : Event) (f : FanOut Leg) : Prop where
  /-- A sink was called with the event, once, if it became ready for it, and else with nothing. -/
  received : ∀ l ∈ f.leaves, l.2.received = if l.2.stage.isCalled then [event] else []
  /-- The tree waits for all its leaves, and for nothing else. -/
  settled : f.outcome?.isSome = true ↔ ∀ l ∈ f.leaves, l.2.stage.isOver = true
  handled : ∀ outcome ∈ f.outcome?, outcome = .handled ↔ ∀ l ∈ f.leaves, l.2.stage = .over .handled
  /-- The leftmost failure is told, with one lead-in for each fan-out above it. -/
  failed : ∀ outcome ∈ f.outcome?, ∀ before depth leg after error,
    f.leaves = before ++ (depth, leg) :: after → (∀ l ∈ before, l.2.stage = .over .handled) →
    leg.stage.error? = some error →
    outcome.error? = some (error.through depth) ∧
      (error.through depth).message =
        String.join (List.replicate depth "telemetry sink error: ") ++ error.message

theorem delivered_of_exact (exact : f.All (·.Exact event)) : f.Delivered event where
  received := exact
  settled := isSome_outcome?_iff
  handled outcome ended := by
    have settled := isSome_outcome?_iff.1 (Option.isSome_of_mem ended)
    rw [← outcome.error?_eq_none_iff, error?_eq ended, List.head?_eq_none_iff, List.filterMap_eq_nil_iff]
    refine forall₂_congr fun l among => ?_
    rw [failure?, Option.map_eq_none_iff, Delivery.Stage.eq_handled_iff (settled l among)]
  failed outcome ended before depth leg after error split handled failure := by
    have none : before.filterMap failure? = [] := by
      refine List.filterMap_eq_nil_iff.2 fun l among => ?_
      rw [failure?, handled l among]
      rfl
    have some : failure? (depth, leg) = some (error.through depth) := by rw [failure?, failure, Option.map_some]
    refine ⟨?_, error.message_through depth⟩
    rw [error?_eq ended, split, List.filterMap_append, none, List.nil_append, List.filterMap_cons, some,
      List.head?_cons]

/-- A tree whose leaves are all done stays as it is. -/
theorem eq_of_all_over (related : Rel (ReflTransGen (Leg.Step event)) f f') (settled : f.All (·.stage.isOver = true)) :
    f' = f := by
  induction related with
  | leaf steps => exact congrArg _ (Leg.eq_of_steps steps (settled _ List.mem_cons_self))
  | both _ _ first second =>
    obtain ⟨one, other⟩ := all_both.1 settled
    rw [first one, second other]

/-! ### Runs -/

/-- What happens at the leaves from moment to moment, side by side. -/
def Runs (event : Event) (run : ℕ → FanOut Leg) : Prop :=
  ∀ n, Rel (ReflTransGen (Leg.Step event)) (run n) (run (n + 1))

/-- The leaf of a number, from the left, is done. -/
def OverAt (i : ℕ) (f : FanOut Leg) : Prop := ∀ l : ℕ × Leg, f.leaves[i]? = some l → l.2.stage.isOver = true

/-- Every leaf is done at some time. -/
def Ends (run : ℕ → FanOut Leg) : Prop := ∀ i, ∃ n, (run n).OverAt i

namespace Runs

variable {run : ℕ → FanOut Leg} (runs : Runs event run)
include runs

theorem rel {n m : ℕ} (later : n ≤ m) : Rel (ReflTransGen (Leg.Step event)) (run n) (run m) := by
  induction m, later using Nat.le_induction with
  | base => exact .of_forall (fun _ => .refl) _
  | succ m _ ih => exact ih.trans (runs m)

/-- At every leaf what is there later has come of what was there before. -/
theorem exists_before {n m i : ℕ} (later : n ≤ m) {l' : ℕ × Leg} (there : (run m).leaves[i]? = some l') :
    ∃ l, (run n).leaves[i]? = some l ∧ ReflTransGen (Leg.Step event) l.2 l'.2 := by
  obtain ⟨length, related⟩ := List.forall₂_iff_get.1 (runs.rel later).leaves
  obtain ⟨within, rfl⟩ := List.getElem?_eq_some_iff.1 there
  exact ⟨_, List.getElem?_eq_getElem (length ▸ within), (related i (length ▸ within) within).2⟩

theorem delivered {tree : FanOut α} (start : run 0 = tree.map fun _ => .start) (n : ℕ) :
    (run n).Delivered event := by
  refine delivered_of_exact fun l' among => ?_
  obtain ⟨i, there⟩ := List.getElem?_of_mem among
  obtain ⟨l, before, steps⟩ := runs.exists_before (Nat.zero_le n) there
  have offered : (run 0).All (· = .start) := start ▸ tree.all_map_const
  refine Leg.exact_of_steps steps ?_
  rw [offered l (List.mem_of_getElem? before)]
  rfl

/-- What is over at a leaf stays so. -/
theorem overAt_of_le {n m i : ℕ} (later : n ≤ m) (ended : (run n).OverAt i) : (run m).OverAt i := by
  intro l' there
  obtain ⟨l, before, steps⟩ := runs.exists_before later there
  rw [Leg.eq_of_steps steps (ended l before)]
  exact ended l before

/-- When every leaf is done at some time, all of them are from some time on. -/
theorem exists_over (ends : Ends run) : ∃ n, (run n).All (·.stage.isOver = true) := by
  have some : ∀ k, ∃ n, ∀ i < k, (run n).OverAt i := by
    intro k
    induction k with
    | zero => exact ⟨0, nofun⟩
    | succ k ih =>
      obtain ⟨n, before⟩ := ih
      obtain ⟨m, last⟩ := ends k
      refine ⟨max n m, fun i less => ?_⟩
      rcases Nat.lt_succ_iff_lt_or_eq.1 less with less | rfl
      · exact runs.overAt_of_le (Nat.le_max_left n m) (before i less)
      · exact runs.overAt_of_le (Nat.le_max_right n m) last
  obtain ⟨n, all⟩ := some (run 0).leaves.length
  have length := (runs.rel (Nat.zero_le n)).leaves.length_eq
  refine ⟨n, fun l among => ?_⟩
  obtain ⟨i, there⟩ := List.getElem?_of_mem among
  have within := (List.getElem?_eq_some_iff.1 there).1
  exact all i (length ▸ within) l there

/-- When every leaf is done at some time, the tree has its outcome from some time on. -/
theorem settles (ends : Ends run) : ∃ n outcome, ∀ m, n ≤ m → (run m).outcome? = some outcome := by
  obtain ⟨n, settled⟩ := runs.exists_over ends
  obtain ⟨outcome, ended⟩ := Option.isSome_iff_exists.1 (isSome_outcome?_iff.2 settled)
  refine ⟨n, outcome, fun m later => ?_⟩
  rw [eq_of_all_over (runs.rel later) settled, ended]

end Runs

end FanOut

end Admission
