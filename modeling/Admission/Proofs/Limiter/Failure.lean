import Admission.Proofs.Limiter.Effect

/-!
# Calls that end an operation

An operation makes its store calls one after the other, and sets a timer for each. The first call that is
refused, or that the timer rings before, ends the operation there; calls that are served leave no trace of how
long they were waited for. Where a timer never rings early, and less than a tick late, a limit is as long as it
says, but for answers that come less than a tick after it.

## Main definitions

* `LawfulTimer`: timers that ring on time.
* `Operation.calls`: the store calls of an operation, in order.
* `Scripted.course`: how a call of a kind will go.
* `Course.Served`, `Course.Stops`: a call that lets an operation go on, and one that ends it.
* `Scripted.Serves`: calls that are served one after the other.

## Main results

* `Course.trichotomy`: a call is served, or ends the operation, or is waited for without end.
* `Course.Served.timed`, `Course.Stops.timed`: by a timer that rings on time, a call fares as by its limit.
* `Plan.perform_ask_served`, `Plan.perform_ask_failed`, `Plan.perform_ask_stopped`: what a plan does at
  one call.
* `Limiter.perform_stopped`: an operation that ends at one of its calls.
* `Limiter.perform_served`: an operation all of whose calls are served does not notice any limit.
-/

namespace Admission

-- The zero of a sum of natural numbers is the core library's, whatever else is in scope.
attribute [local instance (high)] Zero.ofOfNat0

/-! ### Timers that ring on time -/

/-- Timers that never ring early, and less than a tick late, if they are set for no longer than they can be. -/
class LawfulTimer [Timer] : Prop where
  unit_pos : 0 < Timer.unit
  le_runs {limit : Duration} (moment : Nat) (fits : limit.nanos ≤ Timer.longest.nanos) :
    limit.nanos ≤ Timer.runs moment limit * Timer.unit
  runs_lt {limit : Duration} (moment : Nat) (fits : limit.nanos ≤ Timer.longest.nanos) :
    Timer.runs moment limit * Timer.unit < limit.nanos + Timer.tick

namespace Timer

instance : LawfulTimer where
  unit_pos := by decide
  le_runs moment _ := by
    simp only [runs, unit, tick]
    omega
  runs_lt moment _ := by
    simp only [runs, unit, tick]
    omega

instance : @LawfulTimer ticking :=
  letI := ticking
  { unit_pos := Nat.one_pos
    le_runs := fun {limit} moment _ => by
      simp only [runs, unit, tick]
      omega
    runs_lt := fun {limit} moment _ => by
      simp only [runs, unit, tick]
      omega }

section Units

variable [Timer] [LawfulTimer] {limit : Duration} {due : Nat}

theorem le_units_iff : due ≤ units limit ↔ due * unit ≤ limit.nanos :=
  Nat.le_div_iff_mul_le LawfulTimer.unit_pos

/-- What is within a limit comes before the timer rings. -/
theorem le_runs_of_le_units (moment : Nat) (fits : limit.nanos ≤ longest.nanos) (within : due ≤ units limit) :
    due ≤ runs moment limit :=
  Nat.le_of_mul_le_mul_right (Nat.le_trans (le_units_iff.1 within) (LawfulTimer.le_runs moment fits))
    LawfulTimer.unit_pos

/-- What comes a tick after a limit comes after the timer rings. -/
theorem runs_lt_of_tick_le (moment : Nat) (fits : limit.nanos ≤ longest.nanos)
    (late : limit.nanos + tick ≤ due * unit) : runs moment limit < due :=
  Nat.lt_of_mul_lt_mul_right (Nat.lt_of_lt_of_le (LawfulTimer.runs_lt moment fits) late)

end Units

/-- A timer can be set for the limit, if there is one. -/
def Fits [Timer] (limit : Option Duration) : Prop := ∀ most, limit = some most → most.nanos ≤ longest.nanos

end Timer

/-! ### How a call goes -/

namespace Course

variable (c : Course) (length : Duration → Nat) (limit : Option Duration)

/-- The call is answered in time, a limit being of some length, and not refused. -/
def Served : Prop :=
  c.refusal = none ∧ ∃ due, c.due = some due ∧ ∀ most, limit = some most → due ≤ length most

/-- The call ends its operation with an error, a limit being of some length. -/
inductive Stops (op : StoreOp) : LimiterError → Prop
  /-- It takes longer than the limit, if it is ever answered. -/
  | overdue (most : Duration) (given : limit = some most)
    (late : ∀ due, c.due = some due → length most < due) : Stops op (.timeout op most)
  /-- It is refused, and within the limit if there is one. -/
  | refused (words : String) (due : Nat) (refusal : c.refusal = some words)
    (answered : c.due = some due) (inTime : ∀ most, limit = some most → due ≤ length most) :
    Stops op (.store (.failed words))

/-- A call is served, or ends its operation, or is waited for without end. -/
theorem trichotomy (op : StoreOp) :
    c.Served length limit ∨ (∃ error, c.Stops length limit op error) ∨ (c.due = none ∧ limit = none) := by
  cases due : c.due with
  | none =>
    cases given : limit with
    | none => exact .inr (.inr ⟨rfl, rfl⟩)
    | some most => exact .inr (.inl ⟨_, .overdue most rfl (by simp [due])⟩)
  | some after =>
    by_cases late : ∃ most, limit = some most ∧ length most < after
    · obtain ⟨most, given, late⟩ := late
      exact .inr (.inl ⟨_, .overdue most given (by simpa [due] using late)⟩)
    · have inTime : ∀ most, limit = some most → after ≤ length most := fun most given =>
        Nat.le_of_not_lt fun lt => late ⟨most, given, lt⟩
      cases refusal : c.refusal with
      | none => exact .inl ⟨refusal, after, due, inTime⟩
      | some words => exact .inr (.inl ⟨_, .refused words after refusal due inTime⟩)

variable {c length limit} {op : StoreOp} {error : LimiterError}

/-- A call that is served without a limit comes to its end by itself. -/
theorem Served.unlimited {length' : Duration → Nat} (served : c.Served length limit) :
    c.Served length' none :=
  have ⟨refusal, due, answered, _⟩ := served
  ⟨refusal, due, answered, nofun⟩

section Timer

variable [Timer] {moment : Nat}

/-- No answer comes later than the limit by less than a tick of the timer. -/
def Clear (c : Course) (limit : Option Duration) : Prop :=
  ∀ due most, c.due = some due → limit = some most →
    due ≤ Timer.units most ∨ most.nanos + Timer.tick ≤ due * Timer.unit

/-- For how long the call keeps its caller waiting, if not for ever. -/
def span (c : Course) (moment : Nat) (limit : Option Duration) : Nat :=
  match c.wait moment limit with
  | .answered after | .gaveUp after _ => after
  | .forever => 0

/-- A call that ends its operation with an error was waited for until it was refused, or for as long as the limit
and less than a tick more. -/
def Spends (c : Course) (error : LimiterError) (span : Nat) : Prop :=
  match error with
  | .timeout _ most => most.nanos ≤ span * Timer.unit ∧ span * Timer.unit < most.nanos + Timer.tick
  | .store _ => c.due = some span

/-- How long a call that is served keeps its caller waiting. -/
theorem Served.wait (served : c.Served (Timer.runs moment) limit) :
    c.wait moment limit = .answered (c.due.getD 0) := by
  obtain ⟨-, due, answered, inTime⟩ := served
  cases limit with
  | none => simp [Course.wait, answered]
  | some most => simp [Course.wait, answered, inTime most rfl]

/-- Who waits for a call that is overdue gives up when the timer rings. -/
theorem wait_of_late {most : Duration} (late : ∀ due, c.due = some due → Timer.runs moment most < due) :
    c.wait moment (some most) = .gaveUp (Timer.runs moment most) most := by
  cases due : c.due with
  | none => simp [Course.wait, due]
  | some after => simp [Course.wait, due, Nat.not_le_of_lt (late after due)]

/-- Who waits for a call that comes in time waits as long as it takes. -/
theorem wait_of_inTime {due : Nat} (answered : c.due = some due)
    (inTime : ∀ most, limit = some most → due ≤ Timer.runs moment most) :
    c.wait moment limit = .answered due := by
  cases limit with
  | none => simp [Course.wait, answered]
  | some most => simp [Course.wait, answered, inTime most rfl]

variable [LawfulTimer]

/-- A call that is served within its limit is served before the timer rings. -/
theorem Served.timed (fits : Timer.Fits limit) (served : c.Served Timer.units limit) (moment : Nat) :
    c.Served (Timer.runs moment) limit := by
  obtain ⟨refusal, due, answered, inTime⟩ := served
  exact ⟨refusal, due, answered, fun most given =>
    Timer.le_runs_of_le_units moment (fits most given) (inTime most given)⟩

/-- A call that ends its operation by its limit does so by the timer, if it is not in between. -/
theorem Stops.timed (fits : Timer.Fits limit) (clear : c.Clear limit) (stops : c.Stops Timer.units limit op error)
    (moment : Nat) : c.Stops (Timer.runs moment) limit op error := by
  cases stops with
  | overdue most given late =>
    refine .overdue most given fun due answered => ?_
    have tick := (clear due most answered given).resolve_left (Nat.not_le_of_lt (late due answered))
    exact Timer.runs_lt_of_tick_le moment (fits most given) tick
  | refused words due refusal answered inTime =>
    exact .refused words due refusal answered fun most given =>
      Timer.le_runs_of_le_units moment (fits most given) (inTime most given)

/-- How long a call was waited for that ends its operation. -/
theorem Stops.spends (fits : Timer.Fits limit) (stops : c.Stops (Timer.runs moment) limit op error) :
    c.Spends error (c.span moment limit) := by
  cases stops with
  | overdue most given late =>
    subst given
    rw [span, wait_of_late late]
    exact ⟨LawfulTimer.le_runs moment (fits most rfl), LawfulTimer.runs_lt moment (fits most rfl)⟩
  | refused words due refusal answered inTime =>
    rw [span, wait_of_inTime answered inTime]
    exact answered

end Timer

end Course

/-! ### One call of a plan -/

section Plan

variable {σ : Type} [Store σ] {limit : Option Duration} {call : StoreCall}
  {next : Option Standing → Plan} {moment : Nat} {s : Scripted σ} {waits : List Nat}

/-- How the next call of a kind will go: as the first fault says that is meant for it. -/
def Scripted.course (s : Scripted σ) (op : StoreOp) : Course :=
  match Scripted.takeFault op s.script with
  | some (fault, _) => .ofFault fault
  | none => .direct

omit [Store σ] in
theorem Scripted.begin_course (s : Scripted σ) (call : StoreCall) :
    (s.begin call).1 = s.course call.op := by
  simp only [begin, course]
  split <;> simp_all

omit [Store σ] in
theorem Scripted.begin_calls (s : Scripted σ) (call : StoreCall) :
    (s.begin call).2.calls = s.calls ++ [(call.op, call.key)] := by
  simp only [begin]
  split <;> rfl

/-- A fault that one kind of call has taken out was not meant for another. -/
theorem Scripted.takeFault_of_ne {op other : StoreOp} (apart : op ≠ other)
    {script rest : List (StoreOp × Fault)} {fault : Fault}
    (taken : takeFault op script = some (fault, rest)) :
    (takeFault other rest).map (·.1) = (takeFault other script).map (·.1) := by
  induction script generalizing rest with
  | nil => cases taken
  | cons entry later ih =>
    rw [takeFault] at taken
    split at taken
    case isTrue own =>
      cases taken
      rw [takeFault, if_neg (own ▸ apart)]
      cases takeFault other later <;> rfl
    case isFalse =>
      rw [Option.map_eq_some_iff] at taken
      obtain ⟨⟨found, left⟩, inLater, same⟩ := taken
      cases same
      rw [takeFault, takeFault]
      split
      · rfl
      · simpa [Option.map_map, Function.comp_def] using ih inLater

omit [Store σ] in
/-- That a call begins has no part in how a call of another kind will go. -/
theorem Scripted.begin_course_of_ne (s : Scripted σ) {call : StoreCall} {op : StoreOp}
    (apart : call.op ≠ op) : (s.begin call).2.course op = s.course op := by
  cases taken : takeFault call.op s.script with
  | none => simp only [begin, course, taken]
  | some found =>
    have same := takeFault_of_ne apart taken
    simp only [begin, course, taken]
    cases first : takeFault op found.2 <;> cases second : takeFault op s.script <;>
      simp_all

/-- The store once a call was served that leaves `inner` behind the script. -/
def Scripted.served (s : Scripted σ) (call : StoreCall) (inner : σ) : Scripted σ :=
  { (s.begin call).2 with inner }

omit [Store σ] in
@[simp]
theorem Scripted.served_inner (s : Scripted σ) (call : StoreCall) (inner : σ) :
    (s.served call inner).inner = inner := rfl

omit [Store σ] in
@[simp]
theorem Scripted.served_calls (s : Scripted σ) (call : StoreCall) (inner : σ) :
    (s.served call inner).calls = s.calls ++ [(call.op, call.key)] := s.begin_calls call

omit [Store σ] in
/-- A call that was served has no part in how a call of another kind will go. -/
theorem Scripted.served_course (s : Scripted σ) {call : StoreCall} {op : StoreOp} (inner : σ)
    (apart : call.op ≠ op) : (s.served call inner).course op = s.course op := s.begin_course_of_ne apart

/-- The waits before a call, and the wait for it, unless it is answered at once. -/
def waitsWith (waits : List Nat) (course : Course) : List Nat :=
  if course.due.getD 0 = 0 then waits else waits ++ [course.due.getD 0]

theorem sum_waitsWith (waits : List Nat) (course : Course) :
    (waitsWith waits course).sum = waits.sum + course.due.getD 0 := by
  rw [waitsWith]
  split <;> simp_all

variable [Timer]

/-- A plan goes on behind a call that is served, with the answer of the store behind the script. -/
theorem Plan.perform_ask_served (call : StoreCall) {value : Option Standing} {inner : σ}
    (served : (s.course call.op).Served (Timer.runs moment) limit)
    (answers : Store.answer call s.inner = (.ok value, inner)) :
    (Plan.ask call next).perform limit moment s waits =
      (next value).perform limit (moment + (s.course call.op).due.getD 0) (s.served call inner)
        (waitsWith waits (s.course call.op)) := by
  have begun := s.begin_inner call
  rw [Plan.perform]
  simp only [s.begin_course, served.wait, Scripted.finish, served.1, begun, answers]
  rfl

/-- A plan ends at a call that is served and that the store behind the script fails. -/
theorem Plan.perform_ask_failed (call : StoreCall) {error : StoreError} {inner : σ}
    (served : (s.course call.op).Served (Timer.runs moment) limit)
    (fails : Store.answer call s.inner = (.error error, inner)) :
    (Plan.ask call next).perform limit moment s waits =
      ⟨some (.failed call.op (.store error)), s.served call inner,
        waitsWith waits (s.course call.op)⟩ := by
  have begun := s.begin_inner call
  rw [Plan.perform]
  simp only [s.begin_course, served.wait, Scripted.finish, served.1, begun, fails]
  rfl

/-- A call that is served lets a plan forget its limit, if what comes after it does. -/
theorem Plan.perform_ask_unlimited {value : Option Standing} {inner : σ}
    (served : (s.course call.op).Served (Timer.runs moment) limit)
    (answers : Store.answer call s.inner = (.ok value, inner))
    (rest : ∀ waits, (next value).perform limit (moment + (s.course call.op).due.getD 0)
        (s.served call inner) waits =
      (next value).perform none (moment + (s.course call.op).due.getD 0) (s.served call inner) waits) :
    (Plan.ask call next).perform limit moment s waits = (Plan.ask call next).perform none moment s waits := by
  rw [Plan.perform_ask_served call served answers,
    Plan.perform_ask_served call served.unlimited answers, rest]

/-- A plan ends at a call that stops it: nothing behind the script has changed, and the wait for the
call comes on top of those before it. -/
theorem Plan.perform_ask_stopped (next : Option Standing → Plan) (waits : List Nat) {error : LimiterError}
    (stops : (s.course call.op).Stops (Timer.runs moment) limit call.op error) :
    ((Plan.ask call next).perform limit moment s waits).ending = some (.failed call.op error) ∧
      ((Plan.ask call next).perform limit moment s waits).store.inner = s.inner ∧
      ((Plan.ask call next).perform limit moment s waits).store.calls = s.calls ++ [(call.op, call.key)] ∧
      ((Plan.ask call next).perform limit moment s waits).waits.sum =
        waits.sum + (s.course call.op).span moment limit := by
  have inner := s.begin_inner call
  have calls := s.begin_calls call
  rw [Plan.perform, Course.span]
  cases stops with
  | overdue most given late =>
    subst given
    simp only [s.begin_course, Course.wait_of_late late]
    exact ⟨trivial, inner, calls, by rw [List.sum_append, List.sum_singleton]⟩
  | refused words due refusal answered inTime =>
    simp only [s.begin_course, Course.wait_of_inTime answered inTime, Scripted.finish, refusal]
    refine ⟨trivial, inner, calls, ?_⟩
    split <;> simp_all

end Plan

/-! ### Calls one after the other -/

namespace Scripted

variable {σ : Type} (s : Scripted σ) (limit : Option Duration)

/-- How long calls take that are waited for one after the other. -/
def delay (calls : List StoreCall) : Nat := (calls.map fun c => (s.course c.op).due.getD 0).sum

theorem delay_nil : s.delay [] = 0 := rfl

/-- Calls are served one after the other, the first of them from a moment on. -/
def Serves [Timer] : Nat → List StoreCall → Prop
  | _, [] => True
  | moment, call :: later =>
    (s.course call.op).Served (Timer.runs moment) limit ∧
      Serves (moment + (s.course call.op).due.getD 0) later

/-- Calls that are served within the limit are served one after the other before the timers ring. -/
theorem serves_of_served [Timer] [LawfulTimer] {limit : Option Duration} (fits : Timer.Fits limit)
    {calls : List StoreCall} (served : ∀ c ∈ calls, (s.course c.op).Served Timer.units limit)
    (moment : Nat) : s.Serves limit moment calls := by
  induction calls generalizing moment with
  | nil => trivial
  | cons call later ih =>
    obtain ⟨first, rest⟩ := List.forall_mem_cons.1 served
    exact ⟨first.timed fits moment, ih rest _⟩

/-- Calls with a limit are all served, or up to one that stops their operation. -/
theorem serves_or_stops [Timer] (calls : List StoreCall) (moment : Nat) :
    s.Serves limit moment calls ∨ limit = none ∨
      ∃ before call after error, calls = before ++ call :: after ∧ s.Serves limit moment before ∧
        (s.course call.op).Stops (Timer.runs (moment + s.delay before)) limit call.op error := by
  induction calls generalizing moment with
  | nil => exact .inl trivial
  | cons first later ih =>
    rcases (s.course first.op).trichotomy (Timer.runs moment) limit first.op with
      served | ⟨error, stops⟩ | ⟨-, none⟩
    · rcases ih (moment + (s.course first.op).due.getD 0) with all | none |
        ⟨before, call, after, error, rfl, serves, stops⟩
      · exact .inl ⟨served, all⟩
      · exact .inr (.inl none)
      · refine .inr (.inr ⟨first :: before, call, after, error, rfl, ⟨served, serves⟩, ?_⟩)
        rwa [delay, List.map_cons, List.sum_cons, ← Nat.add_assoc]
    · exact .inr (.inr ⟨[], first, later, error, rfl, trivial, stops⟩)
    · exact .inr (.inl none)

end Scripted

/-! ### Operations -/

namespace Operation

/-- The store calls of an operation, in order, where the store keeps `stored` for its key. -/
def calls (b : Bucket) (now : Instant) (stored : Option Standing) : Operation → List StoreCall
  | .grant key => [.get key, .set key (b.decide (stored.getD (b.fresh now)) now).2]
  | .preview key => [.get key]
  | .clear key => [.delete key]

end Operation

namespace Limiter

variable (l : Limiter) (op : Operation) (own : Option Duration) (now : Instant)
  (s : Scripted MemoryStore)

/-- The calls that an operation on a store in memory makes. -/
def callsOf : List StoreCall := op.calls l.bucket now (s.inner.get? op.key)

/-- The first call of an operation is the head of its plan, whatever the operation is. -/
theorem exists_plan_of_callsOf {after : List StoreCall} {call : StoreCall}
    (split : l.callsOf op now s = call :: after) :
    ∃ next, op.plan l.bucket now = .ask call next ∧ call.key = op.key := by
  rw [callsOf] at split
  cases op <;> (cases split; exact ⟨_, rfl, rfl⟩)

/-- Only a grant makes a second call, after one that changes nothing. -/
theorem eq_grant_of_callsOf {before after : List StoreCall} {first call : StoreCall}
    (split : l.callsOf op now s = first :: before ++ call :: after) :
    ∃ key, op = .grant key ∧ first = .get key ∧ before = [] ∧ call =
      .set key (l.bucket.decide ((s.inner.get? key).getD (l.bucket.fresh now)) now).2 := by
  rw [callsOf] at split
  cases op with
  | preview key => simp [Operation.calls] at split
  | clear key => simp [Operation.calls] at split
  | grant key =>
    obtain ⟨rfl, rest⟩ := List.cons.inj split
    cases before with
    | cons second later => simp at rest
    | nil =>
      obtain ⟨rfl, -⟩ := List.cons.inj rest
      exact ⟨key, rfl, rfl, rfl, rfl⟩

variable [Timer] (moment : Nat)

/-- An operation whose calls are served up to one that stops it ends there: it has made that call and
those before it, has waited for each of them on its own, and left what is in the store as it was. -/
theorem perform_stopped {before after : List StoreCall} {call : StoreCall} {error : LimiterError}
    (split : l.callsOf op now s = before ++ call :: after)
    (served : s.Serves (l.limitOf own) moment before)
    (stops : (s.course call.op).Stops (Timer.runs (moment + s.delay before)) (l.limitOf own) call.op error) :
    (l.perform op own now moment s).ending = some (.failed call.op error) ∧
      (l.perform op own now moment s).store.inner = s.inner ∧
      (l.perform op own now moment s).store.calls =
        s.calls ++ (before ++ [call]).map (fun c => (c.op, op.key)) ∧
      (l.perform op own now moment s).waits.sum =
        s.delay before + (s.course call.op).span (moment + s.delay before) (l.limitOf own) := by
  rw [perform]
  cases before with
  | nil =>
    obtain ⟨next, plan, same⟩ := exists_plan_of_callsOf l op now s split
    rw [Scripted.delay_nil, Nat.add_zero] at stops ⊢
    obtain ⟨ending, inner, calls, sum⟩ := Plan.perform_ask_stopped next [] stops
    rw [plan]
    exact ⟨ending, inner, by simpa [same] using calls, sum⟩
  | cons first later =>
    obtain ⟨key, rfl, rfl, rfl, second⟩ := eq_grant_of_callsOf l op now s split
    have loaded := served.1
    have delay : s.delay [.get key] = (s.course .get).due.getD 0 := List.sum_singleton
    rw [Operation.plan_grant, Plan.perform_ask_served _ loaded (s.inner.answer_get key)]
    -- The fault that the first call took out of the script was not meant for the second.
    have apart : (StoreCall.get key).op ≠ call.op := by simp [second, StoreCall.op]
    rw [delay] at stops ⊢
    rw [← s.served_course s.inner apart] at stops ⊢
    subst second
    obtain ⟨ending, inner, calls, sum⟩ := Plan.perform_ask_stopped _ _ stops
    refine ⟨ending, inner, calls.trans ?_, sum.trans ?_⟩
    · simp [StoreCall.key]
    · rw [sum_waitsWith, List.sum_nil, Nat.zero_add]
      rfl

/-- An operation all of whose calls are served goes as it would without any limit on them, and is
answered. -/
theorem perform_served (served : s.Serves (l.limitOf own) moment (l.callsOf op now s)) :
    l.perform op own now moment s = { l with storeTimeout := none }.perform op none now moment s ∧
      (l.perform op own now moment s).ending =
        some (.answered (op.answerOn l.bucket now (s.inner.get? op.key))) := by
  rw [callsOf] at served
  cases op with
  | grant key =>
    have loads := s.inner.answer_get key
    have stores := fun standing => s.inner.answer_set key standing
    obtain ⟨loaded, stored, -⟩ := served
    -- What the first call took out of the script was not meant for the second.
    have apart : (StoreCall.get key).op ≠ .set := nofun
    have stored : ((s.served (.get key) s.inner).course .set).Served
        (Timer.runs (moment + (s.course .get).due.getD 0)) (l.limitOf own) :=
      (s.served_course s.inner apart).symm ▸ stored
    constructor
    · exact Plan.perform_ask_unlimited loaded loads fun _ =>
        Plan.perform_ask_unlimited stored (stores _) fun _ => rfl
    · rw [perform, Operation.plan_grant, Plan.perform_ask_served _ loaded loads]
      exact congrArg Performed.ending (Plan.perform_ask_served (.set key _) stored (stores _))
  | preview key =>
    have loads := s.inner.answer_get key
    constructor
    · exact Plan.perform_ask_unlimited served.1 loads fun _ => rfl
    · rw [perform, Operation.plan, Plan.perform_ask_served _ served.1 loads]
      rfl
  | clear key =>
    have erases := s.inner.answer_delete key
    constructor
    · exact Plan.perform_ask_unlimited served.1 erases fun _ => rfl
    · rw [perform, Operation.plan, Plan.perform_ask_served _ served.1 erases]
      rfl

end Limiter

end Admission
