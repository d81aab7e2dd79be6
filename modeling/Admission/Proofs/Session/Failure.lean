import Admission.Proofs.Limiter.Failure
import Admission.Proofs.Limiter.Lifecycle
import Admission.Proofs.Telemetry.Waiting
import Admission.Session.Basic

/-!
# Operations that are cut short

In a session, an operation that its store cuts short leaves nothing behind but one warning: what is
stored stays, nobody is told of an event, and no call is made after the one that stopped it. Each call
has the whole limit for itself. That is so whatever timer ends the waits; one that rings on time ends them by
the limit itself, except for answers that come less than a tick after it.

## Main definitions

* `Telemetry.warnings`: the warnings in a journal.
* `Session.CutShort`: what an operation that was cut short leaves behind.

## Main results

* `Session.perform_stopped`: what is left behind by an operation that a call stops.
* `Session.perform_served`: an operation whose calls are served goes as it would without any limit.
* `Session.perform_atomic`: one or the other, and by a timer that rings on time, as the limit says.
* `Session.perform_halfMillisecond`: an answer less than a tick after the limit still counts.
-/

namespace Admission

-- The zero of a sum of natural numbers is the core library's, whatever else is in scope.
attribute [local instance (high)] Zero.ofOfNat0

/-- The warnings that were written down and not yet read. -/
def Telemetry.warnings (t : Telemetry) : List Record := t.journal.filter (·.level = .warn)

/-- The work of sinks warns nobody. -/
theorem Telemetry.Onward.warnings {t t' : Telemetry} (onward : Onward t t') :
    t'.warnings = t.warnings := by
  refine onward.filter_journal fun r warns => ?_
  cases sinks : r.fromSinks with
  | false => rfl
  | true => exact absurd (of_decide_eq_true warns) (Record.level_ne_warn sinks)

theorem Telemetry.warnings_note (t : Telemetry) {record : Record} (warns : record.level = .warn) :
    (t.note record).warnings = t.warnings ++ [record] := by
  rw [Telemetry.warnings, note, List.filter_append, Telemetry.warnings]
  simp [warns]

/-- A failure of an operation is a warning. -/
theorem Ending.level_record_failed (key : String) (op : StoreOp) (error : LimiterError) :
    ((Ending.failed op error).record key).level = .warn := by
  cases error <;> rfl

namespace Session

/-- A session in which nobody limits how long a call may take. -/
def unlimited {σ : Type} (s : Session σ) : Session σ :=
  { s with limiter := { s.limiter with storeTimeout := none } }

variable (s : Session MemoryStore)

/-- What an operation on a key leaves behind that was cut short, with the calls it has made and for how long it
has waited for them. -/
structure CutShort (s s' : Session MemoryStore) (key : String) (made : List StoreCall) (span : Nat)
    (warning : Record) : Prop where
  calls : s'.store.calls = s.store.calls ++ made.map fun c => (c.op, key)
  stored : s'.store.inner = s.store.inner
  settings : s'.limiter = s.limiter ∧ s'.clock = s.clock ∧ s'.hits = s.hits
  /-- There were waits, and then a record was written down; no event was reported. -/
  silent : ∃ waits : List Nat, waits.sum = span ∧
    s'.telemetry = (waits.foldl Telemetry.sleep s.telemetry.spend).note warning
  warned : s'.telemetry.warnings = s.telemetry.warnings ++ [warning]
  moment : s'.telemetry.now = s.telemetry.now + span

/-- The calls that an operation makes now. -/
def callsOf (op : Operation) : List StoreCall := s.limiter.callsOf op s.clock.now s.store

section Timer

variable [Timer] (op : Operation) (own : Option Duration)

/-- An operation whose calls are served up to one that stops it is cut short there. -/
theorem perform_stopped {before after : List StoreCall} {call : StoreCall} {error : LimiterError}
    (split : s.callsOf op = before ++ call :: after)
    (served : s.store.Serves (s.limiter.limitOf own) s.telemetry.now before)
    (stops : (s.store.course call.op).Stops (Timer.runs (s.telemetry.now + s.store.delay before))
      (s.limiter.limitOf own) call.op error) :
    (s.perform op own).1 = some (.error error) ∧
      CutShort s (s.perform op own).2 op.key (before ++ [call])
        (s.store.delay before + (s.store.course call.op).span (s.telemetry.now + s.store.delay before)
          (s.limiter.limitOf own))
        ((Ending.failed call.op error).record op.key) := by
  obtain ⟨ending, inner, calls, sum⟩ :=
    s.limiter.perform_stopped op own s.clock.now s.store s.telemetry.now split served stops
  have waited := fun waits =>
    s.telemetry.onward_spend.trans (s.telemetry.spend.onward_foldl_sleep waits)
  rw [perform]
  simp only [ending]
  refine ⟨rfl, calls, inner, ⟨rfl, rfl, rfl⟩, ⟨_, sum, rfl⟩, ?_, ?_⟩
  · exact (Telemetry.warnings_note _ (Ending.level_record_failed ..)).trans
      (congrArg (· ++ _) (waited _).warnings)
  · exact (Telemetry.now_foldl_sleep ..).trans (by rw [Telemetry.now_spend, sum])

/-- An operation goes as it would without any limit. -/
def Unhindered : Prop :=
  (s.perform op own).1 = (s.unlimited.perform op none).1 ∧
    (s.perform op own).2 = { (s.unlimited.perform op none).2 with limiter := s.limiter }

variable {op own}

/-- It is enough that its store calls go as they would. -/
theorem unhindered_of_perform
    (same : s.limiter.perform op own s.clock.now s.telemetry.now s.store =
      s.unlimited.limiter.perform op none s.clock.now s.telemetry.now s.store) : s.Unhindered op own := by
  have alike : s.perform op own = ((s.unlimited.perform op none).1,
      { (s.unlimited.perform op none).2 with limiter := s.limiter }) := by
    rw [perform, perform, same]
    cases ending : (s.unlimited.limiter.perform op none s.clock.now s.telemetry.now s.store).ending <;>
      simp only [unlimited] at ending ⊢ <;> simp only [ending]
  rw [Unhindered, alike]
  exact ⟨rfl, rfl⟩

variable (op own)

/-- An operation whose calls are all served goes as it would without any limit, is answered, and has its effect
on its own key and on no other. -/
theorem perform_served
    (served : s.store.Serves (s.limiter.limitOf own) s.telemetry.now (s.callsOf op)) :
    s.Unhindered op own ∧
      (s.perform op own).1 =
        some (.ok (op.answerOn s.limiter.bucket s.clock.now (s.store.inner.get? op.key))) ∧
      ∀ key, (s.perform op own).2.store.inner.get? key =
        if key = op.key then op.leaves s.limiter.bucket s.clock.now (s.store.inner.get? op.key)
        else s.store.inner.get? key := by
  obtain ⟨same, ending⟩ := s.limiter.perform_served op own s.clock.now s.store s.telemetry.now served
  have effect := s.limiter.perform_spec op own s.clock.now s.telemetry.now s.store
  rw [Performed.answer?, ending] at effect
  obtain ⟨failed, -⟩ | ⟨-, effect⟩ := effect
  · cases failed
  refine ⟨s.unhindered_of_perform same, ?_, fun key => ?_⟩
  · rw [perform]
    simp only [ending]
    rfl
  · rw [← effect key, perform]
    simp only [ending]

/-- The operation ends at the first of its calls that is refused or takes longer than its limit, which
each call has for itself: the failure is that call's, no later call is made, and nothing is left behind
but one warning. If there is no such call, the operation goes as it would without any limit. That is so by any
timer that rings on time, if it can be set for the limit and no answer comes after the limit by less than a tick;
and whenever a timer rings, the operation is cut short at a call that it rings before or that is refused, or goes
as it would without any limit. -/
theorem perform_atomic [LawfulTimer] :
    (Timer.Fits (s.limiter.limitOf own) →
      (∀ before call after error, s.callsOf op = before ++ call :: after →
        (∀ c ∈ before, (s.store.course c.op).Served Timer.units (s.limiter.limitOf own)) →
        (s.store.course call.op).Clear (s.limiter.limitOf own) →
        (s.store.course call.op).Stops Timer.units (s.limiter.limitOf own) call.op error →
        ∃ span, (s.store.course call.op).Spends error span ∧
          (s.perform op own).1 = some (.error error) ∧
          CutShort s (s.perform op own).2 op.key (before ++ [call]) (s.store.delay before + span)
            ((Ending.failed call.op error).record op.key)) ∧
      ((∀ c ∈ s.callsOf op, (s.store.course c.op).Served Timer.units (s.limiter.limitOf own)) →
        s.Unhindered op own ∧
          (s.perform op own).1 =
            some (.ok (op.answerOn s.limiter.bucket s.clock.now (s.store.inner.get? op.key))) ∧
          ∀ key, (s.perform op own).2.store.inner.get? key =
            if key = op.key then op.leaves s.limiter.bucket s.clock.now (s.store.inner.get? op.key)
            else s.store.inner.get? key)) ∧
    (s.Unhindered op own ∨
      ∃ before call after error span, s.callsOf op = before ++ call :: after ∧
        s.store.Serves (s.limiter.limitOf own) s.telemetry.now before ∧
        (s.store.course call.op).Stops (Timer.runs (s.telemetry.now + s.store.delay before))
          (s.limiter.limitOf own) call.op error ∧
        (s.perform op own).1 = some (.error error) ∧
        CutShort s (s.perform op own).2 op.key (before ++ [call]) (s.store.delay before + span)
          ((Ending.failed call.op error).record op.key)) := by
  refine ⟨fun fits => ⟨fun before call after error split served clear stops => ?_, fun served => ?_⟩, ?_⟩
  · have timed := stops.timed fits clear (s.telemetry.now + s.store.delay before)
    exact ⟨_, timed.spends fits,
      s.perform_stopped op own split (s.store.serves_of_served fits served s.telemetry.now) timed⟩
  · exact s.perform_served op own (s.store.serves_of_served fits served s.telemetry.now)
  · rcases s.store.serves_or_stops (s.limiter.limitOf own) (s.callsOf op) s.telemetry.now with
      served | endless | ⟨before, call, after, error, split, served, stops⟩
    · exact .inl (s.perform_served op own served).1
    · -- Without a limit there is nothing to go without.
      refine .inl (s.unhindered_of_perform ?_)
      rw [Limiter.perform, Limiter.perform, endless]
      rfl
    · obtain ⟨ending, cut⟩ := s.perform_stopped op own split served stops
      exact .inr ⟨before, call, after, error, _, split, served, stops, ending, cut⟩

end Timer

/-! ### A read that takes its time, and a write without end -/

/-- A limiter that gives one credit per second, in front of a store that takes its time to read and never ends a
write. -/
def hanging (read : Nat) : Session MemoryStore :=
  ((start .onePerSecond .empty (.ofInstant .second) (.start true .null)).arm .get (.late read none) 1).arm
    .set .hang 1

section Ticking

attribute [local instance] Timer.ticking

/-- Two milliseconds. -/
def twoMillis : Duration := ⟨2000000, by decide⟩

/-- A read takes less than a third of a millisecond; the write is given up after two milliseconds of its own, and
less than one more. -/
theorem perform_atomic_hanging :
    ∃ span, (2000000 ≤ span ∧ span < 3000000) ∧
      ((hanging 300000).perform (.grant "key") (some twoMillis)).1 = some (.error (.timeout .set twoMillis)) ∧
      CutShort (hanging 300000) ((hanging 300000).perform (.grant "key") (some twoMillis)).2 "key"
        ((hanging 300000).callsOf (.grant "key")) (300000 + span) (.storeTimedOut "key" .set twoMillis) := by
  have fits : Timer.Fits ((hanging 300000).limiter.limitOf (some twoMillis)) := fun most given => by
    cases given
    decide
  have read : ((hanging 300000).store.course .get).Served Timer.units (some twoMillis) :=
    ⟨rfl, 300000, rfl, fun most given => by cases given; decide⟩
  obtain ⟨span, spends, rest⟩ := ((perform_atomic (hanging 300000) (.grant "key") (some twoMillis)).1 fits).1
    [.get "key"] (.set "key" _) [] _ rfl (fun c among => List.mem_singleton.1 among ▸ read) nofun
    (.overdue twoMillis rfl nofun)
  refine ⟨span, ?_, rest⟩
  simpa [Course.Spends, Timer.unit, Timer.tick, twoMillis] using spends

end Ticking

/-- Half a millisecond. -/
def halfMillisecond : Duration := ⟨500000, by decide⟩

/-- A call that takes a whole millisecond is served under a limit of half of one. -/
theorem perform_halfMillisecond :
    (hanging 1).callsOf (.preview "key") = [.get "key"] ∧
      (hanging 1).limiter.limitOf (some halfMillisecond) = some halfMillisecond ∧
      (hanging 1).store.course .get = ⟨some 1, none⟩ ∧ halfMillisecond.nanos < 1 * Timer.unit ∧
      ((hanging 1).perform (.preview "key") (some halfMillisecond)).1 =
        some (.ok (.previewed ⟨true, 1, .second, .zero⟩)) ∧
      ((hanging 1).perform (.preview "key") (some halfMillisecond)).1 ≠
        some (.error (.timeout .get halfMillisecond)) := by
  refine ⟨rfl, rfl, rfl, by decide, ?_, ?_⟩
  · decide +kernel
  · decide +kernel

end Session

end Admission
