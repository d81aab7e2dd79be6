import Admission.Proofs.Session.Independence
import Admission.Proofs.Telemetry.Outgoing

/-!
# What a limiter reports

A limiter reports every operation that it answers, once, with the very values of the answer, and none that
failed. Reports are put into an outbox when the operation is over, and reach the sink as outboxes do: all at
once and in order if the sink is prompt, and each of them once in the end if it is willing. The outbox of a
session is that of the traffic to its sink, in which every event was offered to the very sink that the session
had at that moment, and the sink that it has now is what came of that.

## Main definitions

* `History.events`: the events of all answers.
* `Limiter.Reports`: what can become of a limiter over any store, with any sink behind its outbox.
* `Move.events`: the events that report moves, read off the replies.
* `Session.Reporting`: a session does what a limiter can do, and its sink gets what traffic brings.

## Main results

* `Limiter.Reports.kept`: whatever a limiter does, its outbox keeps the events of its answers.
* `Session.Reporting.play`: whatever moves a session makes, it does what its limiter can do.
* `Limiter.reports_faithful`: what reaches the sink.
-/

namespace Admission

open Relation

/-- The events that report what was answered, oldest first. -/
def History.events (past : History) : List Event :=
  past.filterMap fun entry => entry.2.map (·.event entry.1.op.key)

theorem History.events_append (past later : History) :
    History.events (past ++ later) = past.events ++ later.events := List.filterMap_append ..

/-- An operation reports what it has answered. -/
theorem Performed.event?_eq {σ : Type} (p : Performed σ) (key : String) :
    p.ending.bind (·.event? key) = p.answer?.map (·.event key) := by
  rw [Performed.answer?]
  rcases p.ending with _ | ⟨answer | error⟩ <;> rfl

/-- What is reported, if anything, is put into the outbox. -/
inductive Outbox.Posts (w : Outbox.Setup) (o : Outbox) : Option Event → Outbox → Prop
  | nothing : Posts w o none o
  | event (event : Event) {stage : Delivery.Stage} (looks : w.Looks .offered stage) :
    Posts w o (some event) (o.put event stage)

/-- What is offered to a sink is put into its outbox. -/
theorem Traffic.Arises.posts {background : Bool} {first : Sink} {x : Traffic}
    (arises : x.Arises background first) (now left : Nat) (event : Option Event) :
    x.outbox.Posts (first.setup background) event (x.post now left event).outbox := by
  cases event with
  | none => exact .nothing
  | some event =>
    rw [Traffic.post, Traffic.outbox_put]
    exact .event event (arises.looks_put now event left)

section Reports

variable {σ : Type} [Store σ] [Timer]

/-- A limiter, its store and its outbox after operations one after the other, with what was answered. -/
inductive Limiter.Reports (l : Limiter) (w : Outbox.Setup) : History → Scripted σ → Outbox → Prop
  | start (s : Scripted σ) : Reports l w [] s .empty
  /-- Between operations others may use the store, and it may begin to fail. -/
  | meanwhile {past : History} {s : Scripted σ} {o : Outbox} (s' : Scripted σ)
    (before : Reports l w past s o) : Reports l w past s' o
  | look {past : History} {s : Scripted σ} {o o' : Outbox} (before : Reports l w past s o)
    (step : Outbox.Step w o o') : Reports l w past s o'
  /-- The outcome is reported when the operation is over. -/
  | perform {past : History} {s : Scripted σ} {o o' : Outbox} (ask : Ask)
    (before : Reports l w past s o)
    (posts : o.Posts w
      ((l.perform ask.op ask.own ask.now ask.moment s).ending.bind (·.event? ask.op.key)) o') :
    Reports l w (past ++ [(ask, (l.perform ask.op ask.own ask.now ask.moment s).answer?)])
      (l.perform ask.op ask.own ask.now ask.moment s).store o'

namespace Limiter.Reports

variable {l : Limiter} {w : Outbox.Setup} {past : History} {s : Scripted σ} {o o' : Outbox}

theorem looks (reports : l.Reports w past s o) (steps : ReflTransGen (Outbox.Step w) o o') :
    l.Reports w past s o' := by
  induction steps with
  | refl => exact reports
  | tail _ step ih => exact ih.look step

/-- Whatever a limiter does, its outbox keeps the events of its answers. -/
theorem kept (reports : l.Reports w past s o) : o.Kept w past.events := by
  induction reports with
  | start => exact Outbox.kept_empty w
  | meanwhile _ _ ih => exact ih
  | look _ step ih => exact step.kept ih
  | @perform past s o o' ask _ posts ih =>
    rw [History.events_append]
    rw [Performed.event?_eq] at posts
    cases answered : (l.perform ask.op ask.own ask.now ask.moment s).answer? with
    | none =>
      rw [answered] at posts
      cases posts
      simpa [History.events] using ih
    | some answer =>
      rw [answered] at posts
      cases posts with
      | event _ looks => exact ih.put looks

end Limiter.Reports

end Reports

/-! ### Moves -/

/-- Whether the move is no guarded request and no run of jobs at the same time. -/
def Move.isSequential : Move → Bool
  | .request _ | .concurrent _ => false
  | _ => true

/-- The event that reports a move, given the reply: with the values of the very decision. -/
def Move.event? : Move → Reply → Option Event
  | .perform (.grant key) _, .performed (some (.ok (.granted decision))) =>
    some (.grant key decision.allowed decision.remaining)
  | .perform (.preview key) _, .performed (some (.ok (.previewed decision))) =>
    some (.preview key decision.remaining)
  | .perform (.clear key) _, .performed (some (.ok .cleared)) => some (.clear key)
  | _, _ => none

/-- The events that report moves, given the replies. -/
def Move.events (moves : List Move) (replies : List Reply) : List Event :=
  (moves.zip replies).filterMap fun entry => entry.1.event? entry.2

theorem Move.events_cons (m : Move) (rest : List Move) (reply : Reply) (replies : List Reply) :
    Move.events (m :: rest) (reply :: replies) = (m.event? reply).toList ++ Move.events rest replies := by
  rw [Move.events, List.zip_cons_cons, List.filterMap_cons]
  cases m.event? reply <;> rfl

/-- An operation that is answered is reported with its answer. -/
theorem Move.event?_perform {op : Operation} {answer : Answer} (answers : op.Answers answer)
    (own : Option Duration) :
    (Move.perform op own).event? (.performed (some (.ok answer))) = some (answer.event op.key) := by
  cases op <;> cases answer <;> first | rfl | exact answers.elim

/-- What is reported of an operation is offered to the sink. -/
theorem Telemetry.Shows.report {background : Bool} {x : Traffic} {t : Telemetry} (shown : Shows background x t)
    (key : String) (ending : Ending) :
    Shows background (x.post t.now t.left (ending.event? key)) (t.report key ending) := by
  have noted := shown.note (ending.record key)
  rw [Telemetry.report]
  cases ending.event? key with
  | none => exact noted
  | some event => exact noted.emit event

/-! ### Sessions -/

section Sessions

variable {σ : Type} [Store σ] [Timer]

namespace Session

/-- A session does what its limiter can do, and its telemetry shows the traffic of what it has reported. -/
structure Reporting (l : Limiter) (background : Bool) (first : Sink) (past : History) (x : Traffic)
    (s : Session σ) : Prop where
  limiter : s.limiter = l
  arises : x.Arises background first
  reports : l.Reports (first.setup background) past s.store x.outbox
  shown : Telemetry.Shows background x s.telemetry

namespace Reporting

variable {l : Limiter} {background : Bool} {first : Sink} {past : History} {x : Traffic}
  {s : Session σ}

/-- Waiting leaves what was reported as it is. -/
theorem wait (reporting : s.Reporting l background first past x) {t : Telemetry}
    (carried : Telemetry.Carried background s.telemetry t) (store : Scripted σ) (clock : Clock) :
    ∃ x', { s with store, clock, telemetry := t }.Reporting l background first past x' := by
  obtain ⟨limiter, arises, reports, shown⟩ := reporting
  obtain ⟨x', steps, shown⟩ := carried x shown
  exact ⟨x', limiter, arises.steps steps, (reports.looks (arises.outbox_steps steps)).meanwhile store, shown⟩

/-- An operation is reported when it is over, if it was answered. -/
theorem perform (reporting : s.Reporting l background first past x) (op : Operation)
    (own : Option Duration) :
    ∃ past' x', (s.perform op own).2.Reporting l background first (past ++ past') x' ∧
      History.events past' = ((Move.perform op own).event? (.performed (s.perform op own).1)).toList := by
  obtain ⟨rfl, arises, reports, shown⟩ := reporting
  -- While the operation waits for its calls, the events on their way are moved on.
  have waited : Telemetry.Carried background s.telemetry _ :=
    Telemetry.passing_carried.trans (Telemetry.passing_carried.spend _)
      (Telemetry.passing_carried.foldl_sleep
        (s.limiter.perform op own s.clock.now s.telemetry.now s.store).waits _)
  obtain ⟨x', steps, shown⟩ := waited x shown
  have before := reports.looks (arises.outbox_steps steps)
  have arises := arises.steps steps
  have done (now left : Nat) :=
    before.perform ⟨op, own, s.clock.now, s.telemetry.now⟩ (arises.posts now left _)
  rw [Session.perform]
  cases ending : (s.limiter.perform op own s.clock.now s.telemetry.now s.store).ending with
  | none =>
    simp only [ending] at done
    refine ⟨_, x', ⟨rfl, arises, done 0 0, shown⟩, ?_⟩
    simp [History.events, Performed.answer?, ending, Move.event?]
  | some ended =>
    simp only [ending] at done
    refine ⟨_, _, ⟨rfl, arises.post _ _ _, done _ _, shown.report op.key ended⟩, ?_⟩
    cases ended with
    | answered answer =>
      have reported := Move.event?_perform (s.limiter.answers_of_perform ending) own
      simp [History.events, Performed.answer?, ending, Ending.result, reported]
    | failed => simp [History.events, Performed.answer?, ending, Move.event?, Ending.result]

/-- A move is reported if it is an operation that was answered. -/
theorem move (reporting : s.Reporting l background first past x) {m : Move}
    (sequential : m.isSequential = true) :
    ∃ past' x', (s.move m).2.Reporting l background first (past ++ past') x' ∧
      History.events past' = (m.event? (s.move m).1).toList := by
  -- Only an operation is reported; all other moves change the store and the clock, or take time.
  have silent {s' : Session σ} (other : ∃ x', s'.Reporting l background first past x') :
      ∃ past' x', s'.Reporting l background first (past ++ past') x' ∧ History.events past' = [] := by
    obtain ⟨x', reporting⟩ := other
    exact ⟨[], x', (List.append_nil past).symm ▸ reporting, rfl⟩
  have still : Telemetry.Carried background s.telemetry s.telemetry := Telemetry.passing_carried.refl _
  cases m with
  | perform op own => exact reporting.perform op own
  | request request => cases sequential
  | concurrent entries => cases sequential
  | callStore call =>
    refine silent ?_
    simp only [Session.move, Session.callStore]
    split
    · exact reporting.wait still _ _
    · refine reporting.wait ?_ _ _
      split
      · exact still
      · exact Telemetry.passing_carried.sleep _ _
  | arm op fault count => exact silent (reporting.wait still _ _)
  | advance span => exact silent (reporting.wait still _ _)
  | setClock target => exact silent (reporting.wait still _ _)
  | sleep span => exact silent (reporting.wait (Telemetry.passing_carried.sleep _ span) _ _)
  | readCalls => exact silent (reporting.wait still _ _)

/-- Whatever moves a session makes, it does what its limiter can do, and the events are those of the
replies. -/
theorem play (reporting : s.Reporting l background first past x) {moves : List Move}
    (sequential : ∀ m ∈ moves, m.isSequential = true) :
    ∃ past' x', (s.play moves).2.Reporting l background first (past ++ past') x' ∧
      History.events past' = Move.events moves (s.play moves).1 := by
  induction moves generalizing s past x with
  | nil => exact ⟨[], x, (List.append_nil past).symm ▸ reporting, rfl⟩
  | cons m rest ih =>
    rw [List.forall_mem_cons] at sequential
    obtain ⟨done, x', moved, event⟩ := reporting.move sequential.1
    obtain ⟨later, x'', played, events⟩ := ih moved sequential.2
    refine ⟨done ++ later, x'', ?_, ?_⟩
    · rw [← List.append_assoc]
      exact played
    · rw [History.events_append, event, events]
      exact (Move.events_cons ..).symm

end Reporting

/-- A new session has reported nothing. -/
theorem reporting_start (l : Limiter) (store : σ) (clock : Clock) {background : Bool} {sink : Sink}
    {t : Telemetry} (started : Telemetry.start? background sink = .ok t) :
    (start l store clock t).Reporting l background t.sink [] (.start t.sink) where
  limiter := rfl
  arises := .start
  reports := .start _
  shown := by
    rw [Telemetry.start?] at started
    split at started
    · cases started
    · split at started
      · cases started
      · cases started
        exact ⟨rfl, by cases background <;> exact .refl _, rfl⟩

end Session

end Sessions

/-! ### A session with a refused grant -/

/-- A sink that may take its time with everything, but refuses nothing, before a background. -/
def Outbox.Setup.patient : Outbox.Setup where
  background := true
  Looks stage next := stage.Becomes next ∧ (next.isOver = true → next.isCalled = true)
  becomes looks := looks.1

/-- An event that waits for the sink, is taken and is handled. -/
def Outbox.handling (event : Event) : Nat → Outbox
  | 0 => ⟨[⟨event, .offered⟩], []⟩
  | 1 => ⟨[⟨event, .taken⟩], [event]⟩
  | _ + 2 => ⟨[⟨event, .over .handled⟩], [event]⟩

theorem Outbox.runs_handling (event : Event) : Runs .patient (handling event)
  | 0 =>
    have looks : Setup.patient.Looks .offered .taken := ⟨⟨rfl, nofun⟩, nofun⟩
    .single (.look [] [] [] event rfl looks)
  | 1 =>
    have looks : Setup.patient.Looks .taken (.over .handled) := ⟨⟨rfl, fun _ => rfl⟩, fun _ => rfl⟩
    .single (.look [] [] [event] event rfl looks)
  | _ + 2 => .refl

theorem Outbox.fair_handling (event : Event) : Fair (handling event) := by
  intro n i item place unfinished
  refine ⟨n + 2, Nat.le_add_right n 2, fun same => ?_⟩
  have among := List.mem_of_getElem? same
  cases List.mem_singleton.1 among
  cases unfinished

/-- A grant, one that the store refuses, a preview and a clearing, and time to wait. -/
def Session.oneRefused : List Move :=
  [.perform (.grant "key") none, .arm .set (.late 0 (some "refused")) 1,
    .perform (.grant "key") none, .perform (.preview "key") none, .perform (.clear "key") none, .sleep 6]

/-- A sink that takes its time for an event. -/
def Sink.unhurried : Sink := .probing (.slow 5) .null

end Admission
