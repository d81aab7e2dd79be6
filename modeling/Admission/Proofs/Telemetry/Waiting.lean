import Admission.Telemetry.Basic

/-!
# Waiting

While the foreground waits, the background is at work. It moves events on through the sink and writes
down what sinks want written; it never holds up the clock, and writes nothing else.

## Main definitions

* `Effects.FromSinks`: everything that is written down comes from a sink.
* `Telemetry.Onward`: one state of telemetry comes after another by the work of sinks alone.
* `Telemetry.Passing`: a relation between states that turns of the background respect.

## Main results

* `Sink.poll_fromSinks`, `Sink.work_fromSinks`: sinks write nothing but their own records.
* `Telemetry.Passing.sleep`, `Telemetry.Passing.advance`, `Telemetry.Passing.spend`: what turns of the
  background respect, waiting respects.
* `Telemetry.onward_sleep`, `Telemetry.onward_advance`, `Telemetry.onward_spend`: waiting is the work of
  sinks alone.
* `Telemetry.now_advance`, `Telemetry.now_sleep`, `Telemetry.now_spend`, `Telemetry.now_emit`: how late
  it is afterwards.
-/

namespace Admission

-- The zero of a sum of natural numbers is the core library's, whatever else is in scope.
attribute [local instance (high)] Zero.ofOfNat0

/-! ### What sinks write -/

/-- Whether a record comes from the telemetry. -/
def Record.fromSinks (r : Record) : Bool := r.origin = "throttle::telemetry"

/-- What comes from the telemetry warns nobody. -/
theorem Record.level_ne_warn {r : Record} (sinks : r.fromSinks = true) : r.level ≠ .warn := by
  cases r <;> simp_all [fromSinks, origin, level]

namespace Effects

/-- Everything that is written down comes from a sink. -/
def FromSinks (e : Effects) : Prop := ∀ r ∈ e.records, r.fromSinks = true

theorem fromSinks_of_records_eq_nil {e : Effects} (silent : e.records = []) : e.FromSinks := by
  simp [FromSinks, silent]

theorem FromSinks.append {a b : Effects} (first : a.FromSinks) (second : b.FromSinks) :
    (a ++ b).FromSinks := by
  intro r written
  rcases List.mem_append.1 written with inFirst | inSecond
  · exact first r inFirst
  · exact second r inSecond

theorem fromSinks_ofOutcome (o : Delivery.Outcome) : (ofOutcome o).FromSinks := by
  cases o with
  | handled => exact fromSinks_of_records_eq_nil rfl
  | refused error => exact fromSinks_of_records_eq_nil rfl
  | failed error => simp [FromSinks, ofOutcome, note, Record.fromSinks, Record.origin]

end Effects

theorem Polled.slept_fromSinks (now till : Nat) (kind : Probe) (calls : Nat) (inner : Sink) (left : Nat)
    {goOn : Nat → Polled} (sinks : ∀ left, (goOn left).effects.FromSinks) :
    (Polled.slept now till kind calls inner left goOn).effects.FromSinks := by
  rw [slept]
  split
  · exact Effects.fromSinks_of_records_eq_nil rfl
  · split
    · exact Effects.fromSinks_of_records_eq_nil rfl
    · exact sinks _

namespace Sink

open Effects

/-- Whatever an event meets on its way, only sinks write. -/
theorem poll_fromSinks (now : Nat) (event : Event) (sink : Sink) (delivery : Delivery) (left : Nat) :
    (sink.poll now event delivery left).effects.FromSinks := by
  induction sink generalizing delivery left with
  | journal =>
    cases delivery with
    | offered => simp [FromSinks, poll, note, Record.fromSinks, Record.origin]
    | _ => exact fromSinks_of_records_eq_nil rfl
  | fanOut a b first second =>
    cases delivery with
    | offered => exact (first .offered _).append (second .offered _)
    | split lead da db =>
      cases lead with
      | first => exact (first da _).append (second db _)
      | second => exact (second db _).append (first da _)
    | _ => exact fromSinks_of_records_eq_nil rfl
  -- A queue takes the event in, and leaves the sink behind it to its worker.
  | queued id mailbox worker inner =>
    cases delivery with
    | offered => cases worker <;> exact fromSinks_of_records_eq_nil rfl
    | _ => cases worker <;> exact fromSinks_of_records_eq_nil rfl
  | probe kind calls inner behind =>
    cases delivery with
    | offered =>
      cases kind with
      | slow delay => exact Polled.slept_fromSinks _ _ _ _ _ _ fun left => behind .offered left
      | _ => exact fromSinks_of_records_eq_nil rfl
    | asleep till =>
      rw [poll]
      exact Polled.slept_fromSinks _ _ _ _ _ _ fun left => behind .offered left
    | yielded =>
      rw [poll]
      exact behind .offered left
    | within d =>
      rw [poll]
      exact behind d left
    | _ => cases kind <;> exact fromSinks_of_records_eq_nil rfl
  | _ => cases delivery <;> exact fromSinks_of_records_eq_nil rfl

theorem workThrough_fromSinks (now : Nat) (inner : Sink) (event : Event) (delivery : Delivery)
    (left : Nat) (waiting : List Event) :
    (workThrough now inner event delivery left waiting).effects.FromSinks := by
  induction waiting generalizing inner event delivery left with
  | nil =>
    have polled := inner.poll_fromSinks now event delivery left
    rw [workThrough]
    split
    · exact polled
    · split
      · exact (polled.append (fromSinks_ofOutcome _)).append (fromSinks_of_records_eq_nil rfl)
      · exact polled.append (fromSinks_ofOutcome _)
  | cons next later ih =>
    have polled := inner.poll_fromSinks now event delivery left
    rw [workThrough]
    split
    · exact polled
    · split
      · exact (polled.append (fromSinks_ofOutcome _)).append (fromSinks_of_records_eq_nil rfl)
      · exact (polled.append (fromSinks_ofOutcome _)).append (ih _ _ _ _)

theorem workTurn_fromSinks (now allowance : Nat) (waiting : List Event) (inner : Sink)
    (worker : Worker) : (workTurn now allowance waiting inner worker).effects.FromSinks := by
  cases worker with
  | handling event delivery => exact workThrough_fromSinks now inner event delivery allowance waiting
  | due | resting =>
    cases waiting with
    | nil => exact fromSinks_of_records_eq_nil rfl
    | cons event later => exact workThrough_fromSinks now inner event .offered (allowance - 1) later

/-- Whatever a worker does in its turn, only sinks write. -/
theorem work_fromSinks (now allowance target : Nat) (sink : Sink) :
    (sink.work now allowance target).2.FromSinks := by
  induction sink with
  | fanOut a b first second => exact first.append second
  | queued id mailbox worker inner behind =>
    rw [work]
    split
    · exact workTurn_fromSinks now allowance mailbox.waiting inner worker
    · exact behind
  | probe kind calls inner behind => exact behind
  | _ => exact fromSinks_of_records_eq_nil rfl

end Sink

namespace Telemetry

/-! ### The work of sinks -/

/-- One state of telemetry comes after another by the work of sinks alone: all that was written down
meanwhile comes from them. -/
def Onward (t t' : Telemetry) : Prop :=
  ∃ records, t'.journal = t.journal ++ records ∧ ∀ r ∈ records, r.fromSinks = true

theorem Onward.of_journal_eq {t t' : Telemetry} (journal : t'.journal = t.journal) : Onward t t' :=
  ⟨[], by simp [journal], by simp⟩

theorem Onward.refl (t : Telemetry) : Onward t t := .of_journal_eq rfl

theorem Onward.trans {t t' t'' : Telemetry} (first : Onward t t') (second : Onward t' t'') :
    Onward t t'' := by
  obtain ⟨written, journal, sinks⟩ := first
  obtain ⟨written', journal', sinks'⟩ := second
  refine ⟨written ++ written', by rw [journal', journal, List.append_assoc], fun r new => ?_⟩
  rcases List.mem_append.1 new with new | new
  · exact sinks r new
  · exact sinks' r new

/-- What others than sinks have written down stays as it was. -/
theorem Onward.filter_journal {t t' : Telemetry} (onward : Onward t t') {p : Record → Bool}
    (others : ∀ r, p r = true → r.fromSinks = false) : t'.journal.filter p = t.journal.filter p := by
  obtain ⟨written, journal, sinks⟩ := onward
  have none : written.filter p = [] := by
    rw [List.filter_eq_nil_iff]
    intro r new chosen
    simpa [sinks r new] using others r chosen
  rw [journal, List.filter_append, none, List.append_nil]

theorem onward_absorb (t : Telemetry) {effects : Effects} (sinks : effects.FromSinks) :
    Onward t (t.absorb effects) := ⟨effects.records, rfl, sinks⟩

/-- A task writes what its sinks do. -/
theorem onward_run (t : Telemetry) (task : Task) : Onward t (t.run task) := by
  cases task with
  | worker id => exact ⟨_, rfl, t.sink.work_fromSinks t.now Turn.allowance id⟩
  | emission id =>
    rw [run]
    split
    · exact .refl t
    case h_2 e found =>
      have polled := t.sink.poll_fromSinks t.now e.event e.delivery Turn.allowance
      dsimp only
      split
      · exact ⟨_, rfl, polled.append (Effects.fromSinks_ofOutcome _)⟩
      · exact ⟨_, rfl, polled⟩

/-! ### Waiting -/

/-- A relation between states of telemetry that every turn of the background respects, and that does not
depend on when turns are taken and how long they last. -/
structure Passing (R : Telemetry → Telemetry → Prop) : Prop where
  refl (t : Telemetry) : R t t
  trans {t t' t'' : Telemetry} : R t t' → R t' t'' → R t t''
  timed (t : Telemetry) (now : Nat) (agenda : Agenda) (left : Nat) : R t { t with now, agenda, left }
  run (t : Telemetry) (task : Task) : R t (t.run task)

theorem passing_onward : Passing Onward :=
  ⟨.refl, .trans, fun _ _ _ _ => .of_journal_eq rfl, onward_run⟩

namespace Passing

variable {R : Telemetry → Telemetry → Prop} (passing : Passing R)
include passing

theorem takeTurns (count : Nat) (t : Telemetry) : R t (takeTurns count t) := by
  induction count generalizing t with
  | zero => exact passing.refl t
  | succ count ih =>
    rw [Telemetry.takeTurns]
    split
    · exact passing.refl t
    case h_2 turn agenda _ =>
      have begun : R t { t with agenda } := passing.timed t t.now agenda t.left
      exact passing.trans begun (passing.trans (passing.run _ turn.task) (ih _))

theorem round (t : Telemetry) : R t t.round :=
  passing.trans (passing.takeTurns Turn.perRound t) (passing.timed _ _ _ _)

theorem takeRounds (before fuel : Nat) (t : Telemetry) : R t (takeRounds before fuel t) := by
  induction fuel generalizing t with
  | zero => exact passing.refl t
  | succ fuel ih =>
    rw [Telemetry.takeRounds]
    split
    · exact passing.refl t
    case h_2 turn _ _ =>
      have later : R t { t with now := max t.now turn.moment } :=
        passing.timed t (max t.now turn.moment) t.agenda t.left
      exact passing.trans later (passing.trans (passing.round _) (ih _))

theorem giveWay (t : Telemetry) : R t t.giveWay := passing.trans (passing.round t) (passing.timed _ _ _ _)

theorem spend (t : Telemetry) : R t t.spend := by
  rw [Telemetry.spend]
  split
  · exact passing.trans (passing.giveWay t) (passing.timed _ _ _ _)
  · exact passing.timed _ _ _ _

theorem advance (t : Telemetry) (moment : Nat) : R t (t.advance moment) := by
  rw [Telemetry.advance]
  split
  · exact passing.refl t
  · exact passing.trans (passing.takeRounds ..) (passing.timed _ _ _ _)

theorem sleep (t : Telemetry) (span : Nat) : R t (t.sleep span) :=
  passing.trans (passing.advance t _) (passing.spend _)

theorem foldl_sleep (waits : List Nat) (t : Telemetry) : R t (waits.foldl Telemetry.sleep t) := by
  induction waits generalizing t with
  | nil => exact passing.refl t
  | cons span rest ih => exact passing.trans (passing.sleep t span) (ih _)

end Passing

/-- A turn of the background takes no time. -/
@[simp]
theorem now_run (t : Telemetry) (task : Task) : (t.run task).now = t.now := by
  cases task with
  | worker id => rfl
  | emission id =>
    rw [run]
    split
    · rfl
    · dsimp only
      split <;> rfl

theorem now_takeTurns (count : Nat) (t : Telemetry) : (takeTurns count t).now = t.now := by
  induction count generalizing t with
  | zero => rfl
  | succ count ih =>
    rw [takeTurns]
    split
    · rfl
    · rw [ih, now_run]

variable (t : Telemetry)

theorem onward_giveWay : Onward t t.giveWay := passing_onward.giveWay t

theorem onward_spend : Onward t t.spend := passing_onward.spend t

theorem onward_advance (moment : Nat) : Onward t (t.advance moment) := passing_onward.advance t moment

theorem onward_sleep (span : Nat) : Onward t (t.sleep span) := passing_onward.sleep t span

theorem onward_foldl_sleep (waits : List Nat) : Onward t (waits.foldl sleep t) :=
  passing_onward.foldl_sleep waits t

@[simp]
theorem now_giveWay : t.giveWay.now = t.now := now_takeTurns Turn.perRound t

@[simp]
theorem now_spend : t.spend.now = t.now := by
  rw [spend]
  split
  · exact t.now_giveWay
  · rfl

/-- Who waits for a moment goes on at that moment, whatever the background does meanwhile. -/
@[simp]
theorem now_advance (moment : Nat) : (t.advance moment).now = max t.now moment := by
  rw [advance]
  split
  case isTrue past => exact (Nat.max_eq_left past).symm
  case isFalse ahead => exact (Nat.max_eq_right (Nat.le_of_not_le ahead)).symm

/-- A wait takes exactly as long as it was meant to. -/
@[simp]
theorem now_sleep (span : Nat) : (t.sleep span).now = t.now + span := by
  rw [sleep, now_spend, now_advance]
  exact Nat.max_eq_right (Nat.le_add_right ..)

theorem now_foldl_sleep (waits : List Nat) : (waits.foldl sleep t).now = t.now + waits.sum := by
  induction waits generalizing t with
  | nil => rfl
  | cons span rest ih => rw [List.foldl_cons, ih, now_sleep, List.sum_cons, Nat.add_assoc]

/-! ### Events -/

/-- Who reports an event does not wait for the sink. -/
@[simp]
theorem now_emit (event : Event) : (t.emit event).now = t.now := by
  rw [emit]
  dsimp only
  split
  · rfl
  · split <;> rfl

/-- What is written down when an event is reported comes from the sinks. -/
theorem onward_emit (event : Event) : Onward t (t.emit event) := by
  have polled := t.sink.poll_fromSinks t.now event .offered t.left
  rw [emit]
  dsimp only
  split
  · exact ⟨_, rfl, polled.append (Effects.fromSinks_ofOutcome _)⟩
  · split
    · exact ⟨_, rfl, polled⟩
    · -- Without a background, that the event is lost is written down after what the sinks wrote.
      have absorbed := onward_absorb t polled
      have abandoned : Effects.FromSinks (.note .eventAbandoned) := by
        simp [Effects.FromSinks, Effects.note, Record.fromSinks, Record.origin]
      exact absorbed.trans (⟨[.eventAbandoned], rfl, abandoned⟩ : Onward (t.absorb _) _)

end Telemetry

end Admission
