import Admission.Proofs.Limiter.Lifecycle
import Admission.Proofs.Telemetry.Waiting
import Admission.Session.Basic

/-!
# Sessions do not depend on their telemetry

Whatever becomes of the events of a session, and whatever the background does while a store call is
waited for: the session answers the same and keeps the same, at the same moments. An operation can even
be carried out beside its telemetry, with every wait and every deadline on the telemetry's clock, and
nothing changes.

## Main definitions

* `Session.performBeside`: an operation whose waits are the telemetry's.
* `Move`, `Session.play`: what a session can be asked, and a session that is asked one thing after the
  other.
* `Session.Alike`: two sessions that differ at most in what their sinks are and do.

## Main results

* `Session.perform_eq_performBeside`: an operation fares the same beside its telemetry.
* `Session.Alike.move`: a move keeps two sessions alike, and is answered the same in both.
* `Session.play_independent`: the answers and what is stored do not depend on sinks or the background.
-/

namespace Admission

variable {σ : Type} [Store σ]

/-! ### Operations beside their telemetry -/

section Beside

variable [Timer]

/-- Waits for a call to be answered, but no longer than until the timer rings that is set for a limit. -/
def Telemetry.await (t : Telemetry) (course : Course) (limit : Option Duration) : Telemetry :=
  match course.due, limit with
  | some 0, _ => t
  | some due, some limit => t.sleep (min due (Timer.runs t.now limit))
  | some due, none => t.sleep due
  | none, some limit => t.sleep (Timer.runs t.now limit)
  | none, none => t

/-- Carries a plan out beside the telemetry. Whether a call was answered in time is read off the
telemetry's clock after the wait. -/
def Plan.performBeside (limit : Option Duration) :
    Plan → Scripted σ → Telemetry → Option Ending × Scripted σ × Telemetry
  | .finish answer, s, t => (some (.answered answer), s, t)
  | .ask call next, s, t =>
    let (course, s) := s.begin call
    let later := t.await course limit
    if course.due.any (t.now + · ≤ later.now) then
      match s.finish call course with
      | (.error error, s) => (some (.failed call.op (.store error)), s, later)
      | (.ok value, s) => (next value).performBeside limit s later
    else
      (limit.map fun limit => .failed call.op (.timeout call.op limit), s, later)

omit [Timer] in
/-- The waits with one more, unless that takes no time. -/
theorem Telemetry.foldl_sleep_append (t : Telemetry) (waits : List Nat) (after : Nat) :
    (if after = 0 then waits else waits ++ [after]).foldl sleep t =
      if after = 0 then waits.foldl sleep t else (waits.foldl sleep t).sleep after := by
  split <;> simp

omit [Timer] in
/-- A wait of some length ends that much later, also if it takes no time. -/
theorem Telemetry.now_sleep_unless (t : Telemetry) (after : Nat) :
    (if after = 0 then t else t.sleep after).now = t.now + after := by
  split <;> simp_all

/-- Who awaits a call waits as long as the call keeps its caller waiting. -/
theorem Telemetry.await_of_wait (t : Telemetry) (course : Course) (limit : Option Duration) :
    match course.wait t.now limit with
    | .answered after => course.due = some after ∧
        t.await course limit = if after = 0 then t else t.sleep after
    | .gaveUp after most => limit = some most ∧ (∀ due, course.due = some due → after < due) ∧
        t.await course limit = t.sleep after
    | .forever => limit = none ∧ course.due = none ∧ t.await course limit = t := by
  obtain ⟨due, refusal⟩ := course
  cases limit with
  | none =>
    cases due with
    | none => exact ⟨rfl, rfl, rfl⟩
    | some due => cases due <;> exact ⟨rfl, rfl⟩
  | some most =>
    cases due with
    | none => exact ⟨rfl, nofun, rfl⟩
    | some due =>
      have wait : Course.wait ⟨some due, refusal⟩ t.now (some most) =
          if due ≤ Timer.runs t.now most then .answered due
          else .gaveUp (Timer.runs t.now most) most := rfl
      rw [wait]
      by_cases inTime : due ≤ Timer.runs t.now most
      · rw [if_pos inTime]
        cases due with
        | zero => exact ⟨rfl, rfl⟩
        | succ due => exact ⟨rfl, congrArg t.sleep (Nat.min_eq_left inTime)⟩
      · have late := Nat.lt_of_not_le inTime
        rw [if_neg inTime]
        refine ⟨rfl, fun other same => Option.some.inj same ▸ late, ?_⟩
        cases due with
        | zero => exact absurd (Nat.zero_le _) inTime
        | succ due => exact congrArg t.sleep (Nat.min_eq_right (Nat.le_of_lt late))

/-- The telemetry's clock tells how a call ended: by its answer, by the limit, or not at all. -/
theorem Plan.performBeside_ask (limit : Option Duration) (call : StoreCall)
    (next : Option Standing → Plan) (s : Scripted σ) (t : Telemetry) :
    (Plan.ask call next).performBeside limit s t =
      match (s.begin call).1.wait t.now limit with
      | .forever => (none, (s.begin call).2, t)
      | .gaveUp after most =>
        (some (.failed call.op (.timeout call.op most)), (s.begin call).2, t.sleep after)
      | .answered after =>
        let later := if after = 0 then t else t.sleep after
        match (s.begin call).2.finish call (s.begin call).1 with
        | (.error error, s) => (some (.failed call.op (.store error)), s, later)
        | (.ok value, s) => (next value).performBeside limit s later := by
  have awaited := t.await_of_wait (s.begin call).1 limit
  rw [performBeside]
  dsimp only
  split at awaited
  case h_1 after wait =>
    obtain ⟨due, awaited⟩ := awaited
    have inTime : (s.begin call).1.due.any
        (t.now + · ≤ (t.await (s.begin call).1 limit).now) = true := by
      rw [due, awaited]
      simp [Telemetry.now_sleep_unless]
    rw [if_pos inTime, wait, awaited]
  case h_2 after most wait =>
    obtain ⟨given, late, awaited⟩ := awaited
    have tooLate : (s.begin call).1.due.any
        (t.now + · ≤ (t.await (s.begin call).1 limit).now) = false := by
      rw [awaited, Telemetry.now_sleep]
      cases due : (s.begin call).1.due with
      | none => rfl
      | some due' => simpa using late due' due
    rw [tooLate, wait, awaited, given]
    rfl
  case h_3 wait =>
    obtain ⟨given, due, awaited⟩ := awaited
    rw [due, wait, awaited, given]
    rfl

/-- A plan fares beside the telemetry as it does alone, and the telemetry is left to wait as long. -/
theorem Plan.performBeside_eq (limit : Option Duration) (plan : Plan) (s : Scripted σ)
    (waits : List Nat) (t : Telemetry) :
    plan.performBeside limit s (waits.foldl Telemetry.sleep t) =
      let p := plan.perform limit (waits.foldl Telemetry.sleep t).now s waits
      (p.ending, p.store, p.waits.foldl Telemetry.sleep t) := by
  -- The waits before a call are the telemetry's already when the call begins.
  induction plan generalizing s waits with
  | finish answer => rfl
  | ask call next ih =>
    rw [performBeside_ask, perform]
    dsimp only
    cases (s.begin call).1.wait (waits.foldl Telemetry.sleep t).now limit with
    | forever => rfl
    | gaveUp after most => rw [List.foldl_append, List.foldl_cons, List.foldl_nil]
    | answered after =>
      dsimp only
      cases (s.begin call).2.finish call (s.begin call).1 with
      | mk answer left =>
        rw [← Telemetry.now_sleep_unless, ← Telemetry.foldl_sleep_append]
        cases answer with
        | error error => rfl
        | ok value => exact ih value left _

namespace Session

/-- Carries out an operation beside the telemetry. -/
def performBeside (s : Session σ) (op : Operation) (own : Option Duration) :
    Option (Except LimiterError Answer) × Session σ :=
  let (ending, store, telemetry) :=
    (op.plan s.limiter.bucket s.clock.now).performBeside (s.limiter.limitOf own) s.store
      s.telemetry.spend
  (ending.map Ending.result,
    { s with
      store
      telemetry := (ending.map (telemetry.report op.key)).getD telemetry })

/-- An operation whose waits and deadlines are the telemetry's fares as it does alone. -/
theorem perform_eq_performBeside (s : Session σ) (op : Operation) (own : Option Duration) :
    s.perform op own = s.performBeside op own := by
  have beside := Plan.performBeside_eq (s.limiter.limitOf own) (op.plan s.limiter.bucket s.clock.now)
    s.store [] s.telemetry.spend
  rw [List.foldl_nil, Telemetry.now_spend] at beside
  rw [performBeside, beside, perform, Limiter.perform]
  dsimp only
  generalize (op.plan s.limiter.bucket s.clock.now).perform (s.limiter.limitOf own) s.telemetry.now
    s.store [] = p
  cases p.ending <;> rfl

end Session

end Beside

/-! ### Moves -/

/-- What a session can be asked. -/
inductive Move
  | perform (op : Operation) (own : Option Duration)
  | request (request : Request)
  | concurrent (entries : List Entry)
  | callStore (call : StoreCall)
  /-- Has a fault happen to the next store calls of a kind. -/
  | arm (op : StoreOp) (fault : Fault) (count : Nat)
  | advance (span : Duration)
  | setClock (target : Instant)
  | sleep (span : Nat)
  /-- Asks for the calls that the store got. -/
  | readCalls

/-- What a session answers to a move. -/
inductive Reply
  | performed (result : Option (Except LimiterError Answer))
  /-- With the number of requests that have reached the service so far. -/
  | served (result : Option (Except GuardError String)) (hits : Nat)
  | concurrent (results : List (Option (Nat × JobResult)))
  | store (answer : Option StoreAnswer)
  | clock (reading : Option Instant)
  | calls (calls : List (StoreOp × String))
  | done

namespace Session

/-- Makes a move. -/
def move [Timer] (s : Session σ) : Move → Reply × Session σ
  | .perform op own => (s.perform op own).map .performed id
  | .request request =>
    let (result, s) := s.request request
    (.served result s.hits, s)
  | .concurrent entries => (s.concurrent entries).map .concurrent id
  | .callStore call => (s.callStore call).map .store id
  | .arm op fault count => (.done, s.arm op fault count)
  | .advance span => (s.advance span).map .clock id
  | .setClock target => (.done, s.setClock target)
  | .sleep span => (.done, s.sleep span)
  | .readCalls => s.readCalls.map .calls id

/-- Makes moves one after the other. -/
def play [Timer] (s : Session σ) : List Move → List Reply × Session σ
  | [] => ([], s)
  | m :: rest =>
    let moved := s.move m
    let played := moved.2.play rest
    (moved.1 :: played.1, played.2)

end Session

/-! ### Telemetry in step -/

namespace Telemetry

/-- What others than sinks have written down. -/
def ownRecords (t : Telemetry) : List Record := t.journal.filter (!·.fromSinks)

theorem Onward.ownRecords {t t' : Telemetry} (onward : Onward t t') : t'.ownRecords = t.ownRecords :=
  onward.filter_journal fun r own => by simpa using own

/-- It is as late for the one as for the other, and others than sinks have written the same. -/
structure InStep (t₁ t₂ : Telemetry) : Prop where
  now : t₁.now = t₂.now
  ownRecords : t₁.ownRecords = t₂.ownRecords

namespace InStep

variable {t₁ t₂ t₁' t₂' : Telemetry}

/-- Sinks at work do not bring two telemetries out of step. -/
theorem onward (same : InStep t₁ t₂) (first : Onward t₁ t₁') (second : Onward t₂ t₂')
    (now : t₁'.now = t₂'.now) : InStep t₁' t₂' :=
  ⟨now, by rw [first.ownRecords, second.ownRecords, same.ownRecords]⟩

theorem spend (same : InStep t₁ t₂) : InStep t₁.spend t₂.spend :=
  same.onward t₁.onward_spend t₂.onward_spend (by simpa using same.now)

theorem advance (same : InStep t₁ t₂) (moment : Nat) : InStep (t₁.advance moment) (t₂.advance moment) :=
  same.onward (t₁.onward_advance moment) (t₂.onward_advance moment) (by simp [same.now])

theorem sleep (same : InStep t₁ t₂) (span : Nat) : InStep (t₁.sleep span) (t₂.sleep span) :=
  same.onward (t₁.onward_sleep span) (t₂.onward_sleep span) (by simp [same.now])

theorem foldl_sleep (same : InStep t₁ t₂) (waits : List Nat) :
    InStep (waits.foldl Telemetry.sleep t₁) (waits.foldl Telemetry.sleep t₂) := by
  induction waits generalizing t₁ t₂ with
  | nil => exact same
  | cons span rest ih => exact ih (same.sleep span)

theorem emit (same : InStep t₁ t₂) (event : Event) : InStep (t₁.emit event) (t₂.emit event) :=
  same.onward (t₁.onward_emit event) (t₂.onward_emit event) (by simpa using same.now)

theorem note (same : InStep t₁ t₂) (record : Record) : InStep (t₁.note record) (t₂.note record) := by
  refine ⟨same.now, ?_⟩
  have own := same.ownRecords
  simp only [Telemetry.ownRecords] at own
  simp only [Telemetry.ownRecords, Telemetry.note, List.filter_append, own]

theorem report (same : InStep t₁ t₂) (key : String) (ending : Ending) :
    InStep (t₁.report key ending) (t₂.report key ending) := by
  rw [Telemetry.report, Telemetry.report]
  cases ending with
  | answered answer => exact (same.note _).emit _
  | failed op error => exact same.note _

theorem repeat_giveWay (same : InStep t₁ t₂) (rounds : Nat) :
    InStep (Nat.repeat giveWay rounds t₁) (Nat.repeat giveWay rounds t₂) := by
  induction rounds with
  | zero => exact same
  | succ rounds ih =>
    exact ih.onward (onward_giveWay _) (onward_giveWay _) (by simpa [Nat.repeat] using ih.now)

theorem reportAll (same : InStep t₁ t₂) (began : Nat) (last : Nat × Nat) (ended : List Ended) :
    InStep (t₁.reportAll began last ended) (t₂.reportAll began last ended) := by
  induction ended generalizing t₁ t₂ last with
  | nil => exact same
  | cons e rest ih => exact ih (((same.advance _).repeat_giveWay _).spend.report _ _) _

end InStep

/-- Sinks that could be set up begin in step: no time has passed, and only sinks have written. -/
theorem inStep_of_start? {background₁ background₂ : Bool} {sink₁ sink₂ : Sink} {t₁ t₂ : Telemetry}
    (first : start? background₁ sink₁ = .ok t₁) (second : start? background₂ sink₂ = .ok t₂) :
    t₁.InStep t₂ := by
  have fresh {background : Bool} {sink : Sink} {t : Telemetry}
      (started : start? background sink = .ok t) : t.now = 0 ∧ t.ownRecords = [] := by
    rw [start?] at started
    split at started
    · cases started
    · split at started
      · cases started
      · cases started
        exact ⟨rfl, by simp [ownRecords, start, Record.fromSinks, Record.origin]⟩
  exact ⟨(fresh first).1.trans (fresh second).1.symm, (fresh first).2.trans (fresh second).2.symm⟩

end Telemetry

/-! ### Sessions alike -/

namespace Session

omit [Store σ] in
/-- Two sessions that differ at most in what their sinks are, do and have written down. -/
structure Alike (s₁ s₂ : Session σ) : Prop where
  limiter : s₁.limiter = s₂.limiter
  store : s₁.store = s₂.store
  clock : s₁.clock = s₂.clock
  hits : s₁.hits = s₂.hits
  telemetry : s₁.telemetry.InStep s₂.telemetry

section Timer

variable [Timer]

namespace Alike

variable {s₁ s₂ : Session σ}

theorem perform (same : Alike s₁ s₂) (op : Operation) (own : Option Duration) :
    (s₁.perform op own).1 = (s₂.perform op own).1 ∧
      Alike (s₁.perform op own).2 (s₂.perform op own).2 := by
  obtain ⟨limiter, store, clock, hits, telemetry⟩ := same
  simp only [Session.perform, limiter, store, clock, telemetry.now]
  have waited := telemetry.spend.foldl_sleep
    (s₂.limiter.perform op own s₂.clock.now s₂.telemetry.now s₂.store).waits
  split
  · exact ⟨rfl, rfl, rfl, rfl, hits, waited⟩
  · exact ⟨rfl, rfl, rfl, rfl, hits, waited.report _ _⟩

theorem request (same : Alike s₁ s₂) (r : Request) :
    (s₁.request r).1 = (s₂.request r).1 ∧ Alike (s₁.request r).2 (s₂.request r).2 := by
  obtain ⟨result, limiter, store, clock, hits, telemetry⟩ := same.perform (.grant r.key) none
  rw [Session.request, Session.request]
  split
  · exact ⟨rfl, same⟩
  · generalize s₁.perform (.grant r.key) none = first at *
    generalize s₂.perform (.grant r.key) none = second at *
    obtain ⟨result₁, later₁⟩ := first
    obtain ⟨result₂, later₂⟩ := second
    dsimp only at result hits
    cases result
    cases result₁ with
    | none => exact ⟨rfl, limiter, store, clock, hits, telemetry⟩
    | some result => exact ⟨rfl, limiter, store, clock, by simp only [hits], telemetry⟩

theorem concurrent (same : Alike s₁ s₂) (entries : List Entry) :
    (s₁.concurrent entries).1 = (s₂.concurrent entries).1 ∧
      Alike (s₁.concurrent entries).2 (s₂.concurrent entries).2 := by
  obtain ⟨limiter, store, clock, hits, telemetry⟩ := same
  simp only [Session.concurrent, limiter, store, clock, hits, telemetry.now]
  exact ⟨trivial, rfl, rfl, rfl, rfl, (telemetry.reportAll _ _ _).advance _⟩

omit [Timer] in
theorem callStore (same : Alike s₁ s₂) (call : StoreCall) :
    (s₁.callStore call).1 = (s₂.callStore call).1 ∧
      Alike (s₁.callStore call).2 (s₂.callStore call).2 := by
  obtain ⟨limiter, store, clock, hits, telemetry⟩ := same
  simp only [Session.callStore, store]
  split
  · exact ⟨rfl, limiter, rfl, clock, hits, telemetry⟩
  · refine ⟨rfl, limiter, rfl, clock, hits, ?_⟩
    dsimp only
    split
    · exact telemetry
    · exact telemetry.sleep _

/-- A move is answered the same in two sessions that are alike, and keeps them alike. -/
theorem move (same : Alike s₁ s₂) (m : Move) :
    (s₁.move m).1 = (s₂.move m).1 ∧ Alike (s₁.move m).2 (s₂.move m).2 := by
  cases m with
  | perform op own => exact (same.perform op own).imp (congrArg Reply.performed) id
  | request request =>
    obtain ⟨result, later⟩ := same.request request
    simp only [Session.move, result, later.hits]
    exact ⟨trivial, later⟩
  | concurrent entries => exact (same.concurrent entries).imp (congrArg Reply.concurrent) id
  | callStore call => exact (same.callStore call).imp (congrArg Reply.store) id
  | arm op fault count =>
    obtain ⟨limiter, store, clock, hits, telemetry⟩ := same
    exact ⟨rfl, limiter, congrArg (Scripted.arm · op fault count) store, clock, hits, telemetry⟩
  | advance span =>
    obtain ⟨limiter, store, clock, hits, telemetry⟩ := same
    simp only [Session.move, Session.advance, clock]
    exact ⟨rfl, limiter, store, rfl, hits, telemetry⟩
  | setClock target =>
    obtain ⟨limiter, store, clock, hits, telemetry⟩ := same
    exact ⟨rfl, limiter, store, congrArg (Clock.set · target) clock, hits, telemetry⟩
  | sleep span =>
    obtain ⟨limiter, store, clock, hits, telemetry⟩ := same
    exact ⟨rfl, limiter, store, clock, hits, telemetry.sleep span⟩
  | readCalls =>
    obtain ⟨limiter, store, clock, hits, telemetry⟩ := same
    simp only [Session.move, Session.readCalls, store]
    exact ⟨rfl, limiter, rfl, clock, hits, telemetry⟩

/-- Moves are answered the same in two sessions that are alike, and leave them alike. -/
theorem play (same : Alike s₁ s₂) (moves : List Move) :
    (s₁.play moves).1 = (s₂.play moves).1 ∧ Alike (s₁.play moves).2 (s₂.play moves).2 := by
  induction moves generalizing s₁ s₂ with
  | nil => exact ⟨rfl, same⟩
  | cons m rest ih =>
    obtain ⟨answered, moved⟩ := same.move m
    obtain ⟨replies, played⟩ := ih moved
    rw [Session.play, Session.play]
    exact ⟨by rw [answered, replies], played⟩

end Alike

/-- Whatever the sinks are, and with or without a background: the same moves are answered the same, and
leave the same in the store and on the clock, at the same moment; and the operations fare as they do
beside the telemetry, whose clock decides which calls are answered in time. -/
theorem play_independent (limiter : Limiter) (store : σ) (clock : Clock) (moves : List Move)
    {background₁ background₂ : Bool} {sink₁ sink₂ : Sink} {t₁ t₂ : Telemetry}
    (first : Telemetry.start? background₁ sink₁ = .ok t₁)
    (second : Telemetry.start? background₂ sink₂ = .ok t₂) :
    ((start limiter store clock t₁).play moves).1 = ((start limiter store clock t₂).play moves).1 ∧
      Alike ((start limiter store clock t₁).play moves).2
        ((start limiter store clock t₂).play moves).2 ∧
      ∀ (s : Session σ) (op : Operation) (own : Option Duration),
        s.perform op own = s.performBeside op own := by
  have same : Alike (start limiter store clock t₁) (start limiter store clock t₂) :=
    ⟨rfl, rfl, rfl, rfl, (Telemetry.inStep_of_start? first second).note _⟩
  obtain ⟨answers, left⟩ := same.play moves
  exact ⟨answers, left, perform_eq_performBeside⟩

end Timer

/-! ### Clogged sinks -/

/-- Before one sink that never becomes ready and another that is slow behind a mailbox for one event. -/
def clogged : Sink := .fanOut (.probing .unready .null) (.queue 1 (.probing (.slow 5) .counting))

/-- A millisecond. -/
def patience : Duration := ⟨1000000, by decide⟩

/-- Two grants with a read that is too slow for the second, time to wait, and a look at the calls. -/
def twoGrants : List Move :=
  [.perform (.grant "key") none, .arm .get (.late 3 none) 1,
    .perform (.grant "key") (some patience), .sleep 4,
    .perform (.preview "key") none, .readCalls]

/-- One credit per second, from a store in memory and a clock that stands still, with a sink. -/
def startWith (background : Bool) (sink : Sink) : Session MemoryStore :=
  start .onePerSecond .empty (.ofInstant .second) (.start background sink)

/-- The same answers with sinks that are clogged and with none, with a background and without. -/
theorem play_independent_clogged :
    Telemetry.start? true clogged = .ok (.start true clogged) ∧
      Telemetry.start? false .null = .ok (.start false .null) ∧
      ((startWith true clogged).play twoGrants).1 = ((startWith false .null).play twoGrants).1 := by
  have first : Telemetry.start? true clogged = .ok (.start true clogged) := rfl
  have second : Telemetry.start? false .null = .ok (.start false .null) := rfl
  rw [startWith, startWith]
  exact ⟨first, second,
    (play_independent .onePerSecond MemoryStore.empty _ twoGrants first second).1⟩

end Session

end Admission
