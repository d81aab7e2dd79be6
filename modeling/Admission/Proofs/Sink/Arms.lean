import Mathlib.Tactic.Choose
import Admission.Proofs.Sink.FanOut
import Admission.Proofs.Telemetry.Traffic

/-!
# Sinks behind fan-outs

A sink that is a tree of fan-outs moves an event on at every leaf, each time that it is looked at; and the sink
at a leaf does so by itself, as if there were no others. What else happens to the tree, happens at its leaves.
So the tree is one in which the leaves go their ways side by side, and its delivery ends with the outcome of
the tree.

## Main definitions

* `FanOut.Arm`: a sink at a leaf, with how far an event has come there.
* `FanOut.Turn`, `Sink.Turn`: the event is moved on, or something else happens, at the leaves and around the sink.
* `FanOut.Shows`: what the delivery of the whole tree shows of what goes on at the leaves.

## Main results

* `FanOut.Turn.rel_legs`: what happens at the leaves are steps there.
* `FanOut.exists_turn`: what happens around the sink happens at the leaves.
* `FanOut.reaches_every_leaf`: every event reaches every leaf, and the leftmost failure is told.
-/

namespace Admission

open Relation

namespace FanOut

/-! ### Sinks at the leaves -/

/-- A sink at a leaf, how far an event has come there, and the events that the sink was called with. -/
structure Arm where
  sink : Sink
  delivery : Delivery
  received : List Event

namespace Arm

/-- Nobody has offered the event to the sink. -/
def start (sink : Sink) : Arm := ⟨sink, .offered, []⟩

/-- What this leaf is for the tree. -/
def leg (a : Arm) : Leg := ⟨a.delivery.stage, a.received⟩

/-- The sink moves the event on by itself. -/
def look (a : Arm) (now : ℕ) (event : Event) (left : ℕ) : Arm where
  sink := (a.sink.poll now event a.delivery left).sink
  delivery := (a.sink.poll now event a.delivery left).delivery
  received := a.received ++ a.delivery.stage.call event (a.sink.poll now event a.delivery left).delivery.stage

end Arm

/-- The sink whose fan-outs are those of the tree. -/
def sink : FanOut Arm → Sink
  | leaf a => a.sink
  | both a b => .fanOut a.sink b.sink

/-- The legs of a tree of sinks. -/
def legs (f : FanOut Arm) : FanOut Leg := f.map Arm.leg

/-- What can happen around a tree of sinks: at a moment the event is moved on, by every sink at a leaf by itself,
as far as it goes with its allowance; or something else happens to these sinks. -/
def Turn (event : Event) : Option ℕ → FanOut Arm → FanOut Arm → Prop
  | some now => Rel fun a a' => ∃ left, a' = a.look now event left
  | none => Rel fun a a' => a.sink.Later a'.sink ∧ a'.delivery = a.delivery ∧ a'.received = a.received

end FanOut

/-- What can happen around a sink to which an event was offered: at a moment the event is moved on, or something
else happens to the sink. -/
def Sink.Turn (event : Event) : Option ℕ → Sink × Delivery → Sink × Delivery → Prop
  | some now, s, s' => ∃ left, s' =
      ((s.1.poll now event s.2 left).sink, (s.1.poll now event s.2 left).delivery)
  | none, s, s' => s.1.Moves s'.1 ∧ s'.2 = s.2

theorem Sink.poll_over (now : ℕ) (event : Event) (sink : Sink) (outcome : Delivery.Outcome) (left : ℕ) :
    sink.poll now event (.over outcome) left = .stay sink (.over outcome) left := by
  cases sink with
  | queued id mailbox worker inner => cases worker <;> rfl
  | probe kind calls inner => cases kind <;> rfl
  | _ => rfl

namespace FanOut

variable {now left : ℕ} {event : Event} {f f' g g' : FanOut Arm} {d e : Delivery}

namespace Arm

/-- Where the event is over, nothing is done about it. -/
theorem look_of_over {a : Arm} {outcome : Delivery.Outcome} (ended : a.delivery = .over outcome) :
    a.look now event left = a := by
  obtain ⟨sink, delivery, received⟩ := a
  subst ended
  have same := sink.poll_over now event outcome left
  rw [look, same, Polled.stay, Delivery.Stage.call_self, List.append_nil]

/-- Once a sink was called, the call can only go on or come to an end. -/
theorem steps_of_taken (taken : d.Taken) (received : List Event) :
    ReflTransGen (Leg.Step event) ⟨.taken, received⟩ ⟨d.stage, received⟩ := by
  cases d with
  | offered => exact absurd rfl taken.1
  | «over» outcome => exact .single (.finish received outcome (taken.isRefusal rfl))
  | _ => exact .refl

theorem steps_poll (now : ℕ) (event : Event) (sink : Sink) (delivery : Delivery) (left : ℕ) (received : List Event) :
    ReflTransGen (Leg.Step event) ⟨delivery.stage, received⟩
      ⟨(sink.poll now event delivery left).delivery.stage,
        received ++ delivery.stage.call event (sink.poll now event delivery left).delivery.stage⟩ := by
  -- What was taken before is not called again.
  have kept (taken : delivery.Taken) (stage : delivery.stage = .taken) :
      ReflTransGen (Leg.Step event) ⟨delivery.stage, received⟩
        ⟨(sink.poll now event delivery left).delivery.stage,
          received ++ delivery.stage.call event (sink.poll now event delivery left).delivery.stage⟩ := by
    have none : delivery.stage.call event (sink.poll now event delivery left).delivery.stage = [] :=
      if_pos (Delivery.isCalled_stage_iff.2 taken)
    rw [none, stage, List.append_nil]
    exact steps_of_taken (sink.poll_taken now event left taken) received
  cases delivery with
  | offered =>
    rcases sink.poll_offered now event left with ⟨offered, -⟩ | ⟨error, refused, -⟩ | taken
    · rw [offered, Delivery.Stage.call_self, List.append_nil]
    · have none : Delivery.offered.stage.call event (Delivery.over (.refused error)).stage = [] := rfl
      rw [refused, none, List.append_nil]
      exact .single (.refuse received error)
    · have once : Delivery.offered.stage.call event (sink.poll now event .offered left).delivery.stage = [event] :=
        if_pos (Delivery.isCalled_stage_iff.2 taken)
      rw [once]
      exact .head (.call received) (steps_of_taken taken _)
  | «over» outcome => rw [Sink.poll_over, Polled.stay, Delivery.Stage.call_self, List.append_nil]
  | asleep till => exact kept (Delivery.taken_asleep till) rfl
  | yielded => exact kept ⟨nofun, fun _ => nofun⟩ rfl
  | within inner => exact kept (Delivery.taken_within inner) rfl
  | split lead first second => exact kept (Delivery.taken_split lead first second) rfl

/-- A look is a run of steps at the leaf. -/
theorem steps_look (a : Arm) (now : ℕ) (event : Event) (left : ℕ) :
    ReflTransGen (Leg.Step event) a.leg (a.look now event left).leg :=
  steps_poll now event a.sink a.delivery left a.received

end Arm

/-- Whatever happens around a tree of sinks, its legs go on by steps of their own. -/
theorem Turn.rel_legs {moment : Option ℕ} (turn : Turn event moment f f') :
    Rel (ReflTransGen (Leg.Step event)) f.legs f'.legs := by
  cases moment with
  | some now =>
    refine Rel.map turn ?_
    rintro a _ ⟨left, rfl⟩
    exact a.steps_look now event left
  | none =>
    refine Rel.map turn ?_
    rintro ⟨_, _, _⟩ ⟨_, _, _⟩ ⟨-, rfl, rfl⟩
    exact .refl

/-- What the delivery of the whole tree shows of what goes on at the leaves. -/
inductive Shows : FanOut Arm → Delivery → Prop
  | leaf (a : Arm) : Shows (leaf a) a.delivery
  /-- Nobody has looked at the event so far. -/
  | offered {f g : FanOut Arm} (first : Shows f .offered) (second : Shows g .offered) : Shows (both f g) .offered
  | split {f g : FanOut Arm} {d e : Delivery} (lead : Delivery.Branch) (first : Shows f d) (second : Shows g e)
    (unfinished : d.outcome? = none ∨ e.outcome? = none) : Shows (both f g) (.split lead d e)
  | «over» {f g : FanOut Arm} {x y : Delivery.Outcome} (first : Shows f (.over x)) (second : Shows g (.over y)) :
    Shows (both f g) (.over (x.joined y))

theorem shows_start (tree : FanOut Sink) : Shows (tree.map .start) .offered := by
  induction tree with
  | leaf sink => exact .leaf (.start sink)
  | both a b first second => exact .offered first second

theorem shows_both {p r : Polled} (first : Shows f p.delivery) (second : Shows g r.delivery)
    (lead : Delivery.Branch) (effects : Effects) (left : ℕ) :
    Shows (both f g) (Polled.both lead p r effects left).delivery := by
  rw [Polled.both]
  dsimp only
  cases ended : p.delivery with
  | «over» x =>
    cases ended' : r.delivery with
    | «over» y => exact .over (ended ▸ first) (ended' ▸ second)
    | _ => exact .split lead (ended ▸ first) (ended' ▸ second) (.inr rfl)
  | _ => exact .split lead (ended ▸ first) second (.inl rfl)

namespace Shows

/-- The delivery of the whole tree ends with the outcome of the tree. -/
theorem outcome?_legs (shown : Shows f d) : f.legs.outcome? = d.outcome? := by
  induction shown with
  | leaf a =>
    obtain ⟨sink, delivery, received⟩ := a
    cases delivery <;> rfl
  | offered _ _ first second => exact outcome?_both_of_none (.inl first)
  | split lead _ _ unfinished first second => exact outcome?_both_of_none (first.symm ▸ second.symm ▸ unfinished)
  | «over» _ _ first second => exact outcome?_both first second

/-- Where the whole tree is done, so is every leaf, and nothing is done about the event. -/
theorem rel_look_of_over {outcome : Delivery.Outcome} (shown : Shows f (.over outcome)) :
    Rel (fun a a' => ∃ left, a' = a.look now event left) f f := by
  generalize same : Delivery.over outcome = d at shown
  induction shown generalizing outcome with
  | leaf a => exact .leaf ⟨0, (Arm.look_of_over same.symm).symm⟩
  | offered => cases same
  | split => cases same
  | «over» _ _ first second => exact .both (first rfl) (second rfl)

/-- When the event is moved on in the tree, it is moved on at every leaf. -/
theorem look (shown : Shows f d) (now : ℕ) (event : Event) (left : ℕ) :
    ∃ f', Turn event (some now) f f' ∧ f'.sink = (f.sink.poll now event d left).sink ∧
      Shows f' (f.sink.poll now event d left).delivery := by
  induction shown generalizing left with
  | leaf a => exact ⟨.leaf (a.look now event left), .leaf ⟨left, rfl⟩, rfl, .leaf _⟩
  | @offered f g _ _ first second =>
    obtain ⟨f', turn, sink, next⟩ := first left
    obtain ⟨g', turn', sink', next'⟩ := second (f.sink.poll now event .offered left).left
    refine ⟨both f' g', .both turn turn', ?_, shows_both next next' ..⟩
    exact congrArg₂ Sink.fanOut sink sink'
  | @split f g d e lead _ _ unfinished first second =>
    -- The side that leads is moved on first, and the other with the allowance that is left.
    cases lead with
    | first =>
      obtain ⟨f', turn, sink, next⟩ := first left
      obtain ⟨g', turn', sink', next'⟩ := second (f.sink.poll now event d left).left
      refine ⟨both f' g', .both turn turn', ?_, shows_both next next' ..⟩
      exact congrArg₂ Sink.fanOut sink sink'
    | second =>
      obtain ⟨g', turn', sink', next'⟩ := second left
      obtain ⟨f', turn, sink, next⟩ := first (g.sink.poll now event e left).left
      refine ⟨both f' g', .both turn turn', ?_, shows_both next next' ..⟩
      exact congrArg₂ Sink.fanOut sink sink'
  | @«over» f g x y first second _ _ =>
    exact ⟨both f g, .both first.rel_look_of_over second.rel_look_of_over, rfl, .over first second⟩

/-- What happens to the sinks does not show in the delivery. -/
theorem other (shown : Shows f d) (turn : Turn event none f f') : Shows f' d := by
  induction shown generalizing f' with
  | leaf a =>
    cases turn with
    | leaf related => exact related.2.1 ▸ .leaf _
  | offered _ _ first second =>
    cases turn with
    | both one other => exact .offered (first one) (second other)
  | split lead _ _ unfinished first second =>
    cases turn with
    | both one other => exact .split lead (first one) (second other) unfinished
  | «over» _ _ first second =>
    cases turn with
    | both one other => exact .over (first one) (second other)

end Shows

/-! ### Whatever else happens -/

theorem turn_refl (event : Event) (f : FanOut Arm) : Turn event none f f :=
  .of_forall (fun _ => ⟨.refl, rfl, rfl⟩) f

/-- A fan-out passes another event to the sinks at the leaves. -/
theorem exists_polled (event : Event) (f : FanOut Arm) (now : ℕ) (another : Event) (delivery : Delivery) (left : ℕ) :
    ∃ f', Turn event none f f' ∧ f'.sink = (f.sink.poll now another delivery left).sink := by
  induction f generalizing delivery left with
  | leaf a =>
    exact ⟨.leaf { a with sink := (a.sink.poll now another delivery left).sink },
      .leaf ⟨.single (.poll now another a.sink delivery left), rfl, rfl⟩, rfl⟩
  | both f g first second =>
    have polled (d e : Delivery) (left left' : ℕ) : ∃ h, Turn event none (both f g) h ∧
        h.sink = .fanOut (f.sink.poll now another d left).sink (g.sink.poll now another e left').sink := by
      obtain ⟨f', turn, sink⟩ := first d left
      obtain ⟨g', turn', sink'⟩ := second e left'
      exact ⟨both f' g', .both turn turn', congrArg₂ Sink.fanOut sink sink'⟩
    cases delivery with
    | offered => exact polled .offered .offered ..
    | split lead d e => cases lead <;> exact polled d e ..
    | _ => exact ⟨both f g, turn_refl event _, rfl⟩

/-- A fan-out lets the workers at the leaves have their turn. -/
theorem exists_worked (event : Event) (f : FanOut Arm) (now allowance target : ℕ) :
    ∃ f', Turn event none f f' ∧ f'.sink = (f.sink.work now allowance target).1 := by
  induction f with
  | leaf a =>
    exact ⟨.leaf { a with sink := (a.sink.work now allowance target).1 },
      .leaf ⟨.single (.work now allowance target a.sink), rfl, rfl⟩, rfl⟩
  | both f g first second =>
    obtain ⟨f', turn, sink⟩ := first
    obtain ⟨g', turn', sink'⟩ := second
    exact ⟨both f' g', .both turn turn', congrArg₂ Sink.fanOut sink sink'⟩

/-- Whatever happens around a sink that is a tree of fan-outs, happens at its leaves. -/
theorem exists_turn {moment : Option ℕ} {s : Sink × Delivery} (turn : Sink.Turn event moment (f.sink, d) s)
    (shown : Shows f d) : ∃ f', Turn event moment f f' ∧ f'.sink = s.1 ∧ Shows f' s.2 := by
  cases moment with
  | some now =>
    obtain ⟨left, rfl⟩ := turn
    exact shown.look now event left
  | none =>
    obtain ⟨later, delivery⟩ := s
    obtain ⟨moves, rfl⟩ : f.sink.Moves later ∧ delivery = d := turn
    have moved : ∃ f', Turn event none f f' ∧ f'.sink = later := by
      generalize same : f.sink = before at moves
      cases moves with
      | poll now another sink delivery left => exact same ▸ exists_polled event f now another delivery left
      | work now allowance target sink => exact same ▸ exists_worked event f now allowance target
    obtain ⟨f', turn, same⟩ := moved
    exact ⟨f', turn, same, shown.other turn⟩

/-- Whatever happens one after the other around a sink that is a tree of fan-outs, happens at its leaves. -/
theorem exists_arms {moments : ℕ → Option ℕ} {states : ℕ → Sink × Delivery} {tree : FanOut Arm}
    (start : states 0 = (tree.sink, .offered)) (shown : Shows tree .offered)
    (turns : ∀ n, Sink.Turn event (moments n) (states n) (states (n + 1))) :
    ∃ arms : ℕ → FanOut Arm, arms 0 = tree ∧
      ∀ n, Turn event (moments n) (arms n) (arms (n + 1)) ∧ (arms n).sink = (states n).1 ∧
        Shows (arms n) (states n).2 := by
  have next (n : ℕ) (f : { f : FanOut Arm // f.sink = (states n).1 ∧ Shows f (states n).2 }) :
      ∃ f' : { f : FanOut Arm // f.sink = (states (n + 1)).1 ∧ Shows f (states (n + 1)).2 },
        Turn event (moments n) f.1 f'.1 := by
    obtain ⟨f, sink, shown⟩ := f
    have turn : Sink.Turn event (moments n) (f.sink, (states n).2) (states (n + 1)) := sink ▸ turns n
    obtain ⟨f', turn, same, shown'⟩ := exists_turn turn shown
    exact ⟨⟨f', same, shown'⟩, turn⟩
  choose step spec using next
  let arms (n : ℕ) : { f : FanOut Arm // f.sink = (states n).1 ∧ Shows f (states n).2 } :=
    Nat.rec ⟨tree, by rw [start], by rw [start]; exact shown⟩ step n
  exact ⟨fun n => (arms n).1, rfl, fun n => ⟨spec n (arms n), (arms n).2⟩⟩

theorem legs_start (tree : FanOut Sink) : (tree.map .start).legs = tree.map fun _ => Leg.start := by
  induction tree with
  | leaf sink => rfl
  | both a b first second => exact congrArg₂ both first second

/-- However the sinks at the leaves of a tree of fan-outs become ready, fail and finish, every one that becomes
ready is called with the event, once, and the others are not; the tree is done when all of them are, with the
leftmost failure, if any. If every leaf is done at some time, the tree is done from some time on. A sink that is
such a tree is no different, whatever else happens around it: each time the event is moved on, it is moved on at
every leaf that is not done, by the sink there and by itself. -/
theorem reaches_every_leaf (tree : FanOut Sink) (event : Event) :
    (∀ run : ℕ → FanOut Leg, (run 0 = tree.map fun _ => .start) → Runs event run →
      (∀ n, (run n).Delivered event) ∧
        (Ends run → ∃ n outcome, ∀ m, n ≤ m → (run m).outcome? = some outcome)) ∧
    ∀ (moments : ℕ → Option ℕ) (states : ℕ → Sink × Delivery),
      states 0 = ((tree.map .start).sink, .offered) →
      (∀ n, Sink.Turn event (moments n) (states n) (states (n + 1))) →
      ∃ arms : ℕ → FanOut Arm, (arms 0 = tree.map .start ∧ (arms 0).legs = tree.map fun _ => .start) ∧
        (∀ n, Turn event (moments n) (arms n) (arms (n + 1))) ∧ (Runs event fun n => (arms n).legs) ∧
        ∀ n, (arms n).sink = (states n).1 ∧ (arms n).legs.outcome? = (states n).2.outcome? := by
  refine ⟨fun run start runs => ⟨runs.delivered start, runs.settles⟩, fun moments states start turns => ?_⟩
  obtain ⟨arms, first, each⟩ := exists_arms start (shows_start tree) turns
  refine ⟨arms, ⟨first, first ▸ legs_start tree⟩, fun n => (each n).1, fun n => (each n).1.rel_legs, fun n => ?_⟩
  obtain ⟨-, sink, shown⟩ := each n
  exact ⟨sink, shown.outcome?_legs⟩

/-- A sink that never becomes ready, one that fails, and one that keeps what it gets. -/
def threeKinds : FanOut Sink :=
  both (leaf (.probing .refusing .null)) (both (leaf (.probing .failing .null)) (leaf (.recent 4)))

/-- The refusal is told, which is further left than the failure; and yet the third sink gets the event. -/
theorem reaches_every_leaf_threeKinds :
    ∃ arms : ℕ → FanOut Arm, arms 0 = threeKinds.map .start ∧ (∀ n, (arms n).legs.Delivered (.clear "k")) ∧
      (arms 1).sink = .fanOut (.probing .refusing .null)
        (.fanOut (.probe .failing 1 .null) (.memory ((EventLog.ofCapacity 4).push (.clear "k")))) ∧
      (arms 1).legs.outcome? = some (.failed (.branch .notReady)) ∧
      ∃ n outcome, ∀ m, n ≤ m → (arms m).legs.outcome? = some outcome := by
  let looked : Sink × Delivery := (.fanOut (.probing .refusing .null)
    (.fanOut (.probe .failing 1 .null) (.memory ((EventLog.ofCapacity 4).push (.clear "k")))),
    .over (.failed (.branch .notReady)))
  let states (n : ℕ) : Sink × Delivery := if n = 0 then ((threeKinds.map .start).sink, .offered) else looked
  have turns (n : ℕ) : Sink.Turn (.clear "k") (some 0) (states n) (states (n + 1)) := by
    cases n with
    | zero => exact ⟨1, rfl⟩
    | succ n => exact ⟨1, rfl⟩
  obtain ⟨arms, ⟨first, start⟩, -, runs, shown⟩ :=
    (reaches_every_leaf threeKinds (.clear "k")).2 (fun _ => some 0) states rfl turns
  obtain ⟨delivered, settles⟩ := (reaches_every_leaf threeKinds (.clear "k")).1 _ start runs
  obtain ⟨sink, outcome⟩ := shown 1
  have ends : Ends fun n => (arms n).legs := fun i =>
    ⟨1, fun l there => isSome_outcome?_iff.1 (outcome ▸ rfl) l (List.mem_of_getElem? there)⟩
  exact ⟨arms, first, delivered, sink, outcome, settles ends⟩

end FanOut

end Admission
