import Mathlib.Data.List.Nodup
import Admission.Proofs.Limiter.Serial
import Admission.Session.Concurrent

/-!
# Concurrent jobs as interleaved operations

Jobs in a room give their locks in the order of arrival, take their turns in the order in which they are
listed, and fail or are given up as their store and their callers will have it. Whatever comes of that is
an interleaving that the locks admit, with the operations that failed among those that were dropped.

## Main definitions

* `Compatible`: when two places in the line may hold their locks together.
* `Room.Queued`: a line with the places of all jobs that have one.
* `Room.Simulates`: a room at work as a world of interleaved operations.

## Main results

* `compatible_of_admits`: two jobs that are let in together may hold their locks together.
* `Room.Simulates.turn`: a turn of one job is a few steps of its operation.
* `Room.run_reachable`: a run of jobs is an interleaving that the locks admit.
* `Room.run_serializable`: the operations of a key that were answered fared as if one after the other.
-/

namespace Admission

/-! ### The line before the locks -/

/-- Two places may hold their locks together: the locks differ, or both only look. -/
def Compatible (p q : Place) : Prop := p.lock ≠ q.lock ∨ p.exclusive = false ∧ q.exclusive = false

theorem Compatible.symm {p q : Place} (h : Compatible p q) : Compatible q p :=
  h.imp Ne.symm And.symm

variable {line : List Place} {job : ℕ}

/-- A list that begins with an entry is split at it or later on. -/
theorem exists_split_cons {α : Type} (first : α) (rest : List α) (P : List α → α → Prop) :
    (∃ before p after, first :: rest = before ++ p :: after ∧ P before p) ↔
      P [] first ∨ ∃ before p after, rest = before ++ p :: after ∧ P (first :: before) p := by
  constructor
  · rintro ⟨_ | ⟨head, before⟩, p, after, split, holds⟩
    · obtain ⟨rfl, -⟩ := List.cons.inj split
      exact .inl holds
    · obtain ⟨rfl, rfl⟩ := List.cons.inj split
      exact .inr ⟨before, p, after, rfl, holds⟩
  · rintro (holds | ⟨before, p, after, rfl, holds⟩)
    · exact ⟨[], first, rest, rfl, holds⟩
    · exact ⟨first :: before, p, after, rfl, holds⟩

/-- A job is let in when it has a place in the line that is compatible with all places before it. -/
theorem admits_iff (earlier : List Place) :
    admits job earlier line = true ↔ ∃ before p after, line = before ++ p :: after ∧ p.job = job ∧
      (∀ q ∈ before, q.job ≠ job) ∧ ∀ q ∈ earlier ++ before, Compatible q p := by
  -- Places that are passed by on the way to the job's own are added to those that came earlier.
  induction line generalizing earlier with
  | nil => simp [admits]
  | cons first rest ih =>
    rw [admits, exists_split_cons first rest fun before p => p.job = job ∧ (∀ q ∈ before, q.job ≠ job) ∧
      ∀ q ∈ earlier ++ before, Compatible q p]
    by_cases own : first.job = job
    · simp [own, Compatible]
    · simp [own, ih]

/-- A job that is let in stays so when another one takes a place. -/
theorem admits_concat (h : admits job [] line = true) (p : Place) :
    admits job [] (line ++ [p]) = true := by
  rw [admits_iff] at h ⊢
  obtain ⟨before, own, after, rfl, found, others, compatible⟩ := h
  exact ⟨before, own, after ++ [p], by simp, found, others, compatible⟩

/-- A job that is let in stays so when another one leaves the line. -/
theorem admits_filter {other : ℕ} (h : admits job [] line = true) (apart : job ≠ other) :
    admits job [] (line.filter fun p => p.job ≠ other) = true := by
  rw [admits_iff] at h ⊢
  obtain ⟨before, own, after, rfl, rfl, others, compatible⟩ := h
  rw [List.filter_append, List.filter_cons_of_pos (by simpa using apart)]
  refine ⟨_, own, _, rfl, rfl, fun q member => ?_, fun q member => ?_⟩
  · exact others q (List.mem_of_mem_filter member)
  · apply compatible
    rw [List.nil_append] at member ⊢
    exact List.mem_of_mem_filter member

/-- Two jobs that are let in together may hold their locks together. -/
theorem compatible_of_admits (nodup : (line.map (·.job)).Nodup) {p q : Place} (hp : p ∈ line)
    (hq : q ∈ line) (apart : p.job ≠ q.job) (first : admits p.job [] line = true)
    (second : admits q.job [] line = true) : Compatible p q := by
  obtain ⟨before, p', after, split, found, -, compatible⟩ := (admits_iff []).1 first
  obtain ⟨before', q', after', split', found', -, compatible'⟩ := (admits_iff []).1 second
  obtain rfl : p' = p := List.inj_on_of_nodup_map nodup (by simp [split]) hp found
  obtain rfl : q' = q := List.inj_on_of_nodup_map nodup (by simp [split']) hq found'
  -- Whichever of the two places comes later was let in with the other one before it.
  rcases List.append_eq_append_iff.1 (split.symm.trans split') with ⟨between, rfl, rest⟩ | ⟨between, rfl, rest⟩
  · cases between with
    | nil => exact absurd (congrArg Place.job (List.cons.inj rest).1) apart
    | cons head between =>
      obtain ⟨rfl, -⟩ := List.cons.inj rest
      exact compatible' _ (by simp)
  · cases between with
    | nil => exact absurd (congrArg Place.job (List.cons.inj rest).1).symm apart
    | cons head between =>
      obtain ⟨rfl, -⟩ := List.cons.inj rest
      exact (compatible _ (by simp)).symm

/-! ### Plans -/

/-- The phase in which the end of an operation leaves it. -/
def Ending.phase (now : Instant) : Ending → Phase
  | .answered answer => .done now answer
  | .failed .. => .dropped

/-- The phase of an operation that has come so far. -/
def Going.phase (now : Instant) : Going → Phase
  | .ended ending => ending.phase now
  | .calling call next _ => .running now (.ask call next)

theorem MemoryStore.exists_answer (call : StoreCall) (s : MemoryStore) :
    ∃ value later, Store.answer call s = (.ok value, later) := by
  cases call <;> exact ⟨_, _, rfl⟩

section Plans

open Interleaving

variable {ι : Type*} [DecidableEq ι] {b : Bucket} {lockOf : String → ℕ} {ops : ι → Operation}
  {start : MemoryStore} {phases : ι → Phase} {i : ι} {now : Instant}

/-- An operation whose next call is not made can be dropped. -/
theorem Interleaving.Reachable.fail {store : MemoryStore} {call : StoreCall}
    {next : Option Standing → Plan}
    (h : Reachable b lockOf ops start ⟨store, Function.update phases i (.running now (.ask call next))⟩) :
    Reachable b lockOf ops start ⟨store, Function.update phases i .dropped⟩ := by
  have dropped := h.tail (.drop _ i (by simp [Phase.Droppable]))
  rwa [Function.update_idem] at dropped

/-- A call that ends is made, or its operation is dropped. -/
theorem Interleaving.Reachable.finish {s : Scripted MemoryStore} {call : StoreCall}
    {next : Option Standing → Plan}
    (h : Reachable b lockOf ops start
      ⟨s.inner, Function.update phases i (.running now (.ask call next))⟩) (course : Course) :
    Reachable b lockOf ops start ⟨(s.finish call course).2.inner, Function.update phases i
      (match (s.finish call course).1 with
        | .error _ => .dropped
        | .ok value => .running now (next value))⟩ := by
  rw [Scripted.finish]
  cases course.refusal with
  | some words => exact h.fail
  | none =>
    obtain ⟨value, later, answers⟩ := s.inner.exists_answer call
    have called := h.tail (.call _ i now call next value later (Function.update_self ..) answers)
    rw [Function.update_idem] at called
    dsimp only
    rw [answers]
    exact called

/-- Carrying a plan on is a few steps of its operation. -/
theorem Interleaving.Reachable.go [Timer] {limit : Option Duration} {moment : ℕ} {plan : Plan}
    {s : Scripted MemoryStore}
    (h : Reachable b lockOf ops start ⟨s.inner, Function.update phases i (.running now plan)⟩) :
    Reachable b lockOf ops start
      ⟨(plan.go limit moment s).2.inner, Function.update phases i ((plan.go limit moment s).1.phase now)⟩ := by
  induction plan generalizing s with
  | finish answer =>
    have released := h.tail (.release _ i now answer (Function.update_self ..))
    rwa [Function.update_idem] at released
  | ask call next ih =>
    -- A call that is begun has changed nothing yet; only its end is a step.
    have begun := s.begin_inner call
    rw [Plan.go]
    cases hb : s.begin call with
    | mk course later =>
      rw [hb] at begun
      dsimp only at begun ⊢
      rw [← begun] at h
      split
      · exact h.fail
      · have ended := h.finish course
        cases hf : later.finish call course with
        | mk answer last =>
          rw [hf] at ended
          cases answer with
          | error error => exact ended
          | ok value => exact ih value ended
      · exact h

/-- The end of a call that was waited for is a few steps of its operation. -/
theorem Interleaving.Reachable.endCall [Timer] {limit : Option Duration} {s : Scripted MemoryStore}
    {call : StoreCall} {next : Option Standing → Plan} {course : Course} {since moment : ℕ}
    (h : Reachable b lockOf ops start
      ⟨s.inner, Function.update phases i (.running now (.ask call next))⟩) :
    Reachable b lockOf ops start ⟨(endCall limit call next course since moment s).2.inner,
      Function.update phases i ((endCall limit call next course since moment s).1.phase now)⟩ := by
  rw [Admission.endCall]
  split
  · exact h.fail
  · exact h
  · have ended := h.finish course
    cases hf : s.finish call course with
    | mk answer last =>
      rw [hf] at ended
      cases answer with
      | error error => exact ended
      | ok value => exact ended.go

end Plans

/-! ### Rooms -/

/-- The operation of a job; a job without one is a preview that is never begun. -/
def Job.asked (job : Job) : Operation := (job.operation?.map (·.1)).getD (.preview "")

/-- A job that has its place in the line. -/
def Stage.HasPlace : Stage → Prop
  | .inLine | .calling .. => True
  | _ => False

/-- What the result of a job says about how far its operation has come. -/
inductive Concluded (job : Job) : JobResult → Phase → Prop
  | ended (op : Operation) (own : Option Duration) (asked : job.operation? = some (op, own))
    (r : Room MemoryStore) (now : Instant) (ending : Ending) :
    Concluded job (r.conclude job ending).1 (ending.phase now)
  | idle (result : JobResult) (quiet : ∀ answer, result ≠ .answered (.ok answer)) :
    Concluded job result .waiting
  | givenUp : Concluded job .cancelled .dropped

/-- How far the operation of a job has come at a stage. -/
def StandsFor (job : Job) : Stage → Phase → Prop
  | .calling call next _ _, phase => ∃ now, phase = .running now (.ask call next)
  | .over _ result, phase => Concluded job result phase
  | _, phase => phase = .waiting

theorem StandsFor.hasPlace {job : Job} {stage : Stage} {phase : Phase} (h : StandsFor job stage phase)
    (holds : phase.Holds) : stage.HasPlace := by
  cases stage with
  | calling => trivial
  | «over» moment result =>
    cases h with
    | ended op own asked r now ending => cases ending <;> exact holds.elim
    | idle => exact holds.elim
    | givenUp => exact holds.elim
  | _ =>
    rw [h] at holds
    exact holds.elim

/-- A job whose operation has an outcome is over, and shows what comes of that answer. -/
theorem StandsFor.over_of_outcome? {job : Job} {stage : Stage} {phase : Phase} {now : Instant}
    {answer : Answer} (h : StandsFor job stage phase)
    (outcome : phase.outcome? job.asked = some (now, answer)) :
    ∃ op own moment, ∃ r : Room MemoryStore, job.operation? = some (op, own) ∧
      stage = .over moment (r.conclude job (.answered answer)).1 := by
  cases stage with
  | calling =>
    obtain ⟨now, rfl⟩ := h
    cases outcome
  | «over» moment result =>
    cases h with
    | ended op own asked r now ending =>
      cases ending with
      | answered given =>
        cases outcome
        exact ⟨op, own, moment, r, asked, rfl⟩
      | failed => cases outcome
    | idle => cases outcome
    | givenUp => cases outcome
  | _ =>
    cases h
    cases outcome

/-- An operation whose job shows an answer has that outcome. -/
theorem StandsFor.outcome?_of_over {op : Operation} {own : Option Duration} {moment : ℕ}
    {answer : Answer} {phase : Phase}
    (h : StandsFor (.operation op own) (.over moment (.answered (.ok answer))) phase) :
    ∃ now, phase.outcome? op = some (now, answer) := by
  generalize shown : JobResult.answered (.ok answer) = result at h
  cases h with
  | ended op own asked r now ending =>
    cases ending with
    | answered given =>
      cases shown
      exact ⟨now, rfl⟩
    | failed => cases shown
  | idle result quiet => exact absurd shown.symm (quiet answer)
  | givenUp => cases shown

namespace Room

open Interleaving

variable (l : Limiter) (jobs : ℕ → Job) (start : MemoryStore)

/-- The place that a job takes in the line. -/
def placeOf (i : ℕ) : Place :=
  ⟨i, l.scope.lockOf (jobs i).asked.key, (jobs i).asked.isExclusive⟩

/-- The line holds the place of each job that has one, once, and no other. -/
structure Queued (line : List Place) (stage : ℕ → Stage) : Prop where
  placed : ∀ i, (stage i).HasPlace → placeOf l jobs i ∈ line
  owned : ∀ p ∈ line, (stage p.job).HasPlace ∧ p = placeOf l jobs p.job
  nodup : (line.map (·.job)).Nodup

/-- A room at work, with the stage of each job, is a world of interleaved operations. -/
structure Simulates (r : Room MemoryStore) (stage : ℕ → Stage) (w : World ℕ) : Prop where
  limiter : r.limiter = l
  reachable : Reachable l.bucket l.scope.lockOf (fun i => (jobs i).asked) start w
  store : w.store = r.store.inner
  stands : ∀ i, StandsFor (jobs i) (stage i) (w.phase i)
  queued : Queued l jobs r.line stage
  admitted : ∀ i, (w.phase i).Holds → admits i [] r.line = true

variable {l jobs start} {r : Room MemoryStore} {stage : ℕ → Stage} {w : World ℕ} {i : ℕ}

/-- A job that moves on keeps its place in the line, or still has none. -/
theorem Queued.stay (h : Queued l jobs line stage) {next : Stage}
    (same : next.HasPlace ↔ (stage i).HasPlace) : Queued l jobs line (Function.update stage i next) := by
  have kept : ∀ j, (Function.update stage i next j).HasPlace ↔ (stage j).HasPlace := by
    apply (Function.forall_update_iff stage fun j at' => at'.HasPlace ↔ (stage j).HasPlace).2
    exact ⟨same, fun _ _ => Iff.rfl⟩
  refine ⟨fun j place => h.placed j ((kept j).1 place), fun p member => ?_, h.nodup⟩
  obtain ⟨place, own⟩ := h.owned p member
  exact ⟨(kept p.job).2 place, own⟩

/-- A job without a place takes one at the end of the line. -/
theorem Queued.concat (h : Queued l jobs line stage) {next : Stage} (outside : ¬ (stage i).HasPlace)
    (place : next.HasPlace) :
    Queued l jobs (line ++ [placeOf l jobs i]) (Function.update stage i next) where
  placed := by
    apply (Function.forall_update_iff stage fun j at' => at'.HasPlace →
      placeOf l jobs j ∈ line ++ [placeOf l jobs i]).2
    refine ⟨fun _ => List.mem_append_right _ (List.mem_singleton.2 rfl), fun j _ place => ?_⟩
    exact List.mem_append_left _ (h.placed j place)
  owned := by
    intro p member
    rcases List.mem_append.1 member with before | last
    · obtain ⟨inside, same⟩ := h.owned p before
      have apart : p.job ≠ i := by
        intro own
        rw [own] at inside
        exact outside inside
      rw [Function.update_of_ne apart]
      exact ⟨inside, same⟩
    · obtain rfl := List.mem_singleton.1 last
      refine ⟨?_, rfl⟩
      rw [placeOf, Function.update_self]
      exact place
  nodup := by
    -- The job had no place before, so that it is in the line once.
    rw [List.map_append, List.nodup_append]
    refine ⟨h.nodup, List.nodup_singleton _, ?_⟩
    intro j member k last same
    obtain ⟨p, inside, rfl⟩ := List.mem_map.1 member
    rw [List.map_singleton, List.mem_singleton] at last
    have inside := (h.owned p inside).1
    rw [same, last] at inside
    exact outside inside

/-- A job that needs its place no longer leaves the line. -/
theorem Queued.filter (h : Queued l jobs line stage) {next : Stage} (outside : ¬ next.HasPlace) :
    Queued l jobs (line.filter fun p => p.job ≠ i) (Function.update stage i next) where
  placed := by
    apply (Function.forall_update_iff stage fun j at' => at'.HasPlace →
      placeOf l jobs j ∈ line.filter fun p => p.job ≠ i).2
    refine ⟨fun place => absurd place outside, fun j apart place => ?_⟩
    exact List.mem_filter.2 ⟨h.placed j place, decide_eq_true apart⟩
  owned := by
    intro p member
    obtain ⟨inside, apart⟩ := List.mem_filter.1 member
    rw [Function.update_of_ne (by simpa using apart)]
    exact h.owned p inside
  nodup := h.nodup.sublist (List.filter_sublist.map _)

theorem Queued.compatible (h : Queued l jobs line stage) {j : ℕ} (apart : j ≠ i)
    (place : (stage j).HasPlace) (place' : (stage i).HasPlace) (admitted : admits j [] line = true)
    (admitted' : admits i [] line = true) : Compatible (placeOf l jobs j) (placeOf l jobs i) :=
  compatible_of_admits h.nodup (h.placed j place) (h.placed i place') apart admitted admitted'

/-- An operation that is let in can be given its lock. -/
theorem Simulates.free (h : Simulates l jobs start r stage w) (place : (stage i).HasPlace)
    (waits : w.phase i = .waiting) (admitted : admits i [] r.line = true) :
    Free l.scope.lockOf (fun i => (jobs i).asked) w.phase i := by
  intro j holds lock
  have apart : j ≠ i := by
    rintro rfl
    rw [waits] at holds
    exact holds.elim
  -- Whoever holds a lock is still in the line, and was let in.
  have inside := (h.stands j).hasPlace holds
  rcases h.queued.compatible apart inside place (h.admitted j holds) admitted with differ | shared
  · exact absurd lock differ
  · exact shared

/-- A job that has no place in the line, before or after, leaves the operations as they are. -/
theorem Simulates.idle (h : Simulates l jobs start r stage w) {r' : Room MemoryStore} {next : Stage}
    (limiter : r'.limiter = r.limiter) (store : r'.store = r.store) (line : r'.line = r.line)
    (outside : ¬ (stage i).HasPlace) (stays : ¬ next.HasPlace)
    (stands : StandsFor (jobs i) next (w.phase i)) :
    Simulates l jobs start r' (Function.update stage i next) w where
  limiter := limiter.trans h.limiter
  reachable := h.reachable
  store := h.store.trans (congrArg Scripted.inner store.symm)
  stands := by
    apply (Function.forall_update_iff stage fun j at' => StandsFor (jobs j) at' (w.phase j)).2
    exact ⟨stands, fun j _ => h.stands j⟩
  queued := line ▸ h.queued.stay (iff_of_false stays outside)
  admitted := by
    rw [line]
    exact h.admitted

/-- A job that waits takes a place at the end of the line. -/
theorem Simulates.lineUp (h : Simulates l jobs start r stage w) (waits : stage i = .waiting) :
    Simulates l jobs start { r with line := r.line ++ [placeOf l jobs i] }
      (Function.update stage i .inLine) w where
  limiter := h.limiter
  reachable := h.reachable
  store := h.store
  stands := by
    apply (Function.forall_update_iff stage fun j at' => StandsFor (jobs j) at' (w.phase j)).2
    have stands := h.stands i
    rw [waits] at stands
    exact ⟨stands, fun j _ => h.stands j⟩
  queued := h.queued.concat (by rw [waits]; exact id) trivial
  admitted := fun j holds => admits_concat (h.admitted j holds) _

/-- What a job stands for may change together with its stage. -/
theorem Simulates.stands_update (h : Simulates l jobs start r stage w) {next : Stage} {phase : Phase}
    (stands : StandsFor (jobs i) next phase) (j : ℕ) :
    StandsFor (jobs j) (Function.update stage i next j) (Function.update w.phase i phase j) := by
  by_cases own : j = i
  · subst own
    rw [Function.update_self, Function.update_self]
    exact stands
  · rw [Function.update_of_ne own, Function.update_of_ne own]
    exact h.stands j

/-- A job that is over leaves the line. -/
theorem Simulates.leave (h : Simulates l jobs start r stage w) {r' : Room MemoryStore} {phase : Phase}
    {moment : ℕ} {result : JobResult} (limiter : r'.limiter = r.limiter)
    (line : r'.line = r.line.filter fun p => p.job ≠ i) (released : ¬ phase.Holds)
    (reachable : Reachable l.bucket l.scope.lockOf (fun i => (jobs i).asked) start
      ⟨r'.store.inner, Function.update w.phase i phase⟩)
    (concluded : Concluded (jobs i) result phase) :
    Simulates l jobs start r' (Function.update stage i (.over moment result))
      ⟨r'.store.inner, Function.update w.phase i phase⟩ where
  limiter := limiter.trans h.limiter
  reachable := reachable
  store := rfl
  stands := h.stands_update concluded
  queued := line ▸ h.queued.filter id
  admitted := by
    rw [line]
    apply (Function.forall_update_iff w.phase fun j reached => reached.Holds →
      admits j [] (r.line.filter fun p => p.job ≠ i) = true).2
    refine ⟨fun holds => absurd holds released, fun j apart holds => ?_⟩
    exact admits_filter (h.admitted j holds) apart

/-- A job whose call has begun keeps its place and its lock. -/
theorem Simulates.wait (h : Simulates l jobs start r stage w) {now : Instant} {call : StoreCall}
    {rest : Option Standing → Plan} {course : Course} {store : Scripted MemoryStore}
    (place : (stage i).HasPlace) (admitted : admits i [] r.line = true)
    (reachable : Reachable l.bucket l.scope.lockOf (fun i => (jobs i).asked) start
      ⟨store.inner, Function.update w.phase i (.running now (.ask call rest))⟩) :
    Simulates l jobs start { r with store } (Function.update stage i (.calling call rest course r.now))
      ⟨store.inner, Function.update w.phase i (.running now (.ask call rest))⟩ where
  limiter := h.limiter
  reachable := reachable
  store := rfl
  stands := h.stands_update ⟨now, rfl⟩
  queued := h.queued.stay (iff_of_true trivial place)
  admitted := by
    apply (Function.forall_update_iff w.phase fun j reached => reached.Holds →
      admits j [] r.line = true).2
    exact ⟨fun _ => admitted, fun j _ => h.admitted j⟩

/-- The result of a job touches neither the store nor the line. -/
theorem conclude_same (r : Room MemoryStore) (job : Job) (ending : Ending) :
    (r.conclude job ending).2.limiter = r.limiter ∧ (r.conclude job ending).2.store = r.store ∧
      (r.conclude job ending).2.line = r.line := by
  cases job <;> exact ⟨rfl, rfl, rfl⟩

/-- Taking in how far an operation has come keeps the room in step with the operations. -/
theorem Simulates.proceed (h : Simulates l jobs start r stage w) {now : Instant} {going : Going}
    {store : Scripted MemoryStore} {op : Operation} {own : Option Duration}
    (asked : (jobs i).operation? = some (op, own)) (place : (stage i).HasPlace)
    (admitted : admits i [] r.line = true)
    (reachable : Reachable l.bucket l.scope.lockOf (fun i => (jobs i).asked) start
      ⟨store.inner, Function.update w.phase i (going.phase now)⟩) :
    ∃ w', Simulates l jobs start ({ r with store }.proceed i (jobs i) op.key going).2
      (Function.update stage i ({ r with store }.proceed i (jobs i) op.key going).1) w' := by
  cases going with
  | calling call next course => exact ⟨_, h.wait place admitted reachable⟩
  | ended ending =>
    have released : ¬ (ending.phase now).Holds := by
      intro holds
      cases ending <;> exact holds
    obtain ⟨limiter, kept, line⟩ := conclude_same ({ r with store }.leave i) (jobs i) ending
    refine ⟨_, h.leave limiter line released ?_ (.ended op own asked _ now ending)⟩
    exact (congrArg Scripted.inner kept).symm ▸ reachable

theorem asked_of_operation? {job : Job} {op : Operation} {own : Option Duration}
    (h : job.operation? = some (op, own)) : job.asked = op := by
  rw [Job.asked, h]
  rfl

variable [Timer]

/-- A job in the line that is let in takes its lock, reads the clock and carries its plan on. -/
theorem Simulates.enter (h : Simulates l jobs start r stage w) (inLine : stage i = .inLine)
    {next : Stage} {r' : Room MemoryStore} (moved : r.enter i (jobs i) = some (next, r')) :
    ∃ w', Simulates l jobs start r' (Function.update stage i next) w' := by
  obtain rfl := h.limiter
  have place : (stage i).HasPlace := by
    rw [inLine]
    trivial
  have waits : w.phase i = .waiting := by
    have := h.stands i
    rwa [inLine] at this
  rw [Room.enter] at moved
  cases operation : (jobs i).operation? with
  | none =>
    rw [operation] at moved
    cases moved
  | some asked =>
    obtain ⟨op, own⟩ := asked
    rw [operation] at moved
    dsimp only at moved
    split at moved
    case isFalse => cases moved
    case isTrue admitted =>
      -- The operation takes its lock, reads the clock, and then makes the calls of its plan.
      have locked := h.reachable.tail (.acquire w i waits (h.free place waits admitted))
      have begun := locked.tail (.read _ i r.clock.now (Function.update_self ..))
      rw [Function.update_idem, asked_of_operation? operation, h.store] at begun
      have gone : Reachable r.limiter.bucket r.limiter.scope.lockOf (fun i => (jobs i).asked) start
          ⟨((op.plan r.limiter.bucket r.clock.now).go (r.limiter.limitOf own) (r.began + r.now)
            r.store).2.inner, _⟩ :=
        Reachable.go begun
      obtain ⟨w', reached⟩ := h.proceed operation place admitted gone
      rw [Option.some.inj moved] at reached
      exact ⟨w', reached⟩

/-- A job that joins the line for its operation waits there, or goes on at once. -/
theorem Simulates.join (h : Simulates l jobs start r stage w) (waits : stage i = .waiting)
    {op : Operation} {own : Option Duration} (operation : (jobs i).operation? = some (op, own)) :
    ∃ w', Simulates l jobs start (r.join i (jobs i) op).2
      (Function.update stage i (r.join i (jobs i) op).1) w' := by
  obtain rfl := h.limiter
  have lined := h.lineUp waits
  rw [placeOf, asked_of_operation? operation] at lined
  rw [Room.join]
  cases moved : ({ r with line := r.line ++ [⟨i, r.limiter.scope.lockOf op.key, op.isExclusive⟩] } :
      Room MemoryStore).enter i (jobs i) with
  | none => exact ⟨w, lined⟩
  | some reached =>
    obtain ⟨next, r'⟩ := reached
    obtain ⟨w', entered⟩ := lined.enter (Function.update_self ..) moved
    rw [Function.update_idem] at entered
    exact ⟨w', entered⟩

/-- A job that begins takes its place in the line, or has nothing to do with the operations. -/
theorem Simulates.begin (h : Simulates l jobs start r stage w) (waits : stage i = .waiting) :
    ∃ w', Simulates l jobs start (r.begin i (jobs i)).2
      (Function.update stage i (r.begin i (jobs i)).1) w' := by
  have outside : ¬ (stage i).HasPlace := by
    rw [waits]
    exact id
  have waiting : w.phase i = .waiting := by
    have := h.stands i
    rwa [waits] at this
  have join {op : Operation} {own : Option Duration}
      (operation : (jobs i).operation? = some (op, own)) := h.join waits operation
  -- What is over at once, without an operation, leaves all operations as they are.
  have idle {r' : Room MemoryStore} {result : JobResult} (limiter : r'.limiter = r.limiter)
      (store : r'.store = r.store) (line : r'.line = r.line)
      (quiet : ∀ answer, result ≠ .answered (.ok answer)) :
      ∃ w', Simulates l jobs start r' (Function.update stage i (.over r.now result)) w' :=
    ⟨w, h.idle limiter store line outside id (waiting ▸ .idle result quiet)⟩
  cases job : jobs i with
  | operation op own =>
    rw [job] at join
    exact join rfl
  | request request =>
    rw [Room.begin]
    split
    case isTrue => exact idle rfl rfl rfl (fun _ same => by cases same)
    case isFalse =>
      rw [job] at join
      exact join rfl
  | advance span => exact idle rfl rfl rfl (fun _ same => by cases same)
  | setClock target => exact idle rfl rfl rfl (fun _ same => by cases same)
  | sleep span =>
    cases span with
    | zero => exact idle rfl rfl rfl (fun _ same => by cases same)
    | succ span => exact ⟨w, h.idle rfl rfl rfl outside id waiting⟩

/-- A call whose time has come ends, and its operation is carried on. -/
theorem Simulates.endCall (h : Simulates l jobs start r stage w) {call : StoreCall}
    {rest : Option Standing → Plan} {course : Course} {since begun moment : ℕ}
    (calling : stage i = .calling call rest course since) {op : Operation} {own : Option Duration}
    (operation : (jobs i).operation? = some (op, own)) {next : Stage} {r' : Room MemoryStore}
    (ended :
      { r with store := (Admission.endCall (l.limitOf own) call rest course begun moment r.store).2 }.proceed i
        (jobs i) op.key (Admission.endCall (l.limitOf own) call rest course begun moment r.store).1 =
          (next, r')) :
    ∃ w', Simulates l jobs start r' (Function.update stage i next) w' := by
  have stands := h.stands i
  rw [calling] at stands
  obtain ⟨now, running⟩ := stands
  have place : (stage i).HasPlace := by
    rw [calling]
    trivial
  have admitted := h.admitted i (by rw [running]; trivial)
  have called : Reachable l.bucket l.scope.lockOf (fun i => (jobs i).asked) start
      ⟨r.store.inner, Function.update w.phase i (.running now (.ask call rest))⟩ := by
    rw [← running, Function.update_eq_self, ← h.store]
    exact h.reachable
  have gone : Reachable l.bucket l.scope.lockOf (fun i => (jobs i).asked) start
      ⟨(Admission.endCall (l.limitOf own) call rest course begun moment r.store).2.inner, _⟩ :=
    Reachable.endCall called
  obtain ⟨w', reached⟩ := h.proceed operation place admitted gone
  rw [ended] at reached
  exact ⟨w', reached⟩

/-- Whatever lets a job go on keeps the room in step with the operations. -/
theorem Simulates.move (h : Simulates l jobs start r stage w) {e : Entry} (job : e.job = jobs i)
    {next : Stage} {r' : Room MemoryStore} (moved : r.move i e (stage i) = some (next, r')) :
    ∃ w', Simulates l jobs start r' (Function.update stage i next) w' := by
  cases at' : stage i with
  | waiting =>
    rw [at', Room.move] at moved
    split at moved
    case isFalse => cases moved
    case isTrue =>
      obtain ⟨w', begun⟩ := h.begin at'
      rw [← job, Option.some.inj moved] at begun
      exact ⟨w', begun⟩
  | inLine =>
    rw [at', Room.move, job] at moved
    exact h.enter at' moved
  | asleep till =>
    rw [at', Room.move] at moved
    split at moved
    case isFalse => cases moved
    case isTrue =>
      cases moved
      have outside : ¬ (stage i).HasPlace := by
        rw [at']
        exact id
      have waiting : w.phase i = .waiting := by
        have := h.stands i
        rwa [at'] at this
      exact ⟨w, h.idle rfl rfl rfl outside id (waiting ▸ .idle _ fun _ same => by cases same)⟩
  | calling call rest course since =>
    obtain rfl := h.limiter
    rw [at', Room.move, job] at moved
    cases operation : (jobs i).operation? with
    | none =>
      rw [operation] at moved
      cases moved
    | some asked =>
      obtain ⟨op, own⟩ := asked
      rw [operation] at moved
      dsimp only at moved
      split at moved
      · cases moved
      split at moved
      case isFalse => cases moved
      case isTrue => exact h.endCall at' operation (Option.some.inj moved)
  | «over» moment result =>
    rw [at'] at moved
    cases moved

omit [Timer] in
/-- A job that is given up before it is over drops its operation. -/
theorem Simulates.giveUp (h : Simulates l jobs start r stage w)
    (unfinished : ∀ moment result, stage i ≠ .over moment result) (moment : ℕ) :
    ∃ w', Simulates l jobs start (r.leave i) (Function.update stage i (.over moment .cancelled)) w' := by
  have stands := h.stands i
  have droppable : (w.phase i).Droppable ((jobs i).asked) := by
    cases at' : stage i with
    | «over» moment result => exact absurd at' (unfinished moment result)
    | calling call rest course since =>
      rw [at'] at stands
      obtain ⟨now, running⟩ := stands
      rw [running]
      trivial
    | _ =>
      rw [at'] at stands
      have waiting : w.phase i = .waiting := stands
      rw [waiting]
      trivial
  have dropped := h.reachable.tail (.drop w i droppable)
  rw [h.store] at dropped
  exact ⟨_, h.leave rfl rfl id dropped .givenUp⟩

/-- A turn of one job keeps the room in step with the operations. -/
theorem Simulates.turn (h : Simulates l jobs start r stage w) {e : Entry} (job : e.job = jobs i)
    {next : Stage} {r' : Room MemoryStore} (turned : r.turn i e (stage i) = some (next, r')) :
    ∃ w', Simulates l jobs start r' (Function.update stage i next) w' := by
  rw [Room.turn] at turned
  cases moved : r.move i e (stage i) with
  | none =>
    rw [moved] at turned
    dsimp only [Option.getD_none, Option.map_none] at turned
    split at turned
    case isFalse => cases turned
    case isTrue given =>
      cases turned
      refine h.giveUp (fun moment result over' => ?_) r.now
      rw [over'] at given
      cases given
  | some reached =>
    -- A job that went on is given up from where it has got to.
    obtain ⟨stage', r''⟩ := reached
    obtain ⟨w', after⟩ := h.move job moved
    rw [moved] at turned
    dsimp only [Option.getD_some, Option.map_some] at turned
    split at turned
    case isFalse =>
      cases turned
      exact ⟨w', after⟩
    case isTrue given =>
      cases turned
      obtain ⟨w'', dropped⟩ := after.giveUp (i := i) (fun moment result over' => by
        rw [Function.update_self] at over'
        rw [over'] at given
        cases given) r''.now
      rw [Function.update_idem] at dropped
      exact ⟨w'', dropped⟩

/-! ### Runs -/

/-- The entries from an index on are the jobs at their stages. -/
def Listed (jobs : ℕ → Job) (stage : ℕ → Stage) (index : ℕ) (entries : List (Entry × Stage)) : Prop :=
  ∀ k e s, entries[k]? = some (e, s) → e.job = jobs (index + k) ∧ s = stage (index + k)

omit [Timer] in
theorem Listed.tail {index : ℕ} {first : Entry × Stage} {rest : List (Entry × Stage)}
    (h : Listed jobs stage index (first :: rest)) : Listed jobs stage (index + 1) rest := by
  intro k e s found
  have := h (k + 1) e s found
  rwa [Nat.add_right_comm, Nat.add_assoc]

/-- A turn of every job keeps the room in step with the operations. -/
theorem Simulates.pass {index : ℕ} {entries : List (Entry × Stage)}
    (h : Simulates l jobs start r stage w) (listed : Listed jobs stage index entries) :
    ∃ stage' w', Simulates l jobs start (r.pass index entries).2.2 stage' w' ∧
      Listed jobs stage' index (r.pass index entries).2.1 ∧ ∀ k < index, stage' k = stage k := by
  induction entries generalizing index r stage w with
  | nil => exact ⟨stage, w, h, listed, fun _ _ => rfl⟩
  | cons first rest ih =>
    obtain ⟨e, at'⟩ := first
    obtain ⟨job, rfl⟩ := listed 0 e at' rfl
    rw [Nat.add_zero] at job
    obtain ⟨w', turned⟩ : ∃ w', Simulates l jobs start
        ((r.turn index e (stage index)).getD (stage index, r)).2
        (Function.update stage index ((r.turn index e (stage index)).getD (stage index, r)).1) w' := by
      cases turned : r.turn index e (stage index) with
      | none =>
        rw [Option.getD_none, Function.update_eq_self]
        exact ⟨w, h⟩
      | some reached => exact h.turn job turned
    have others : Listed jobs
        (Function.update stage index ((r.turn index e (stage index)).getD (stage index, r)).1)
        (index + 1) rest := by
      intro k e' s found
      rw [Function.update_of_ne (by omega)]
      exact listed.tail k e' s found
    -- The turns of the others leave the stage of this job as it is.
    obtain ⟨stage', w'', passed, listed', kept⟩ := ih turned others
    refine ⟨stage', w'', passed, ?_, fun k below => ?_⟩
    · intro k e' s found
      cases k with
      | zero =>
        cases found
        rw [Nat.add_zero, kept index (Nat.lt_succ_self index), Function.update_self]
        exact ⟨job, rfl⟩
      | succ k =>
        have := listed' k e' s found
        rwa [Nat.add_right_comm, Nat.add_assoc] at this
    · rw [kept k (by omega), Function.update_of_ne (by omega)]

theorem length_pass (r : Room MemoryStore) (index : ℕ) (entries : List (Entry × Stage)) :
    (r.pass index entries).2.1.length = entries.length := by
  induction entries generalizing index r with
  | nil => rfl
  | cons first rest ih => exact congrArg (· + 1) (ih _ _)

theorem length_steps (fuel : ℕ) (r : Room MemoryStore) (entries : List (Entry × Stage)) :
    (steps fuel r entries).1.length = entries.length := by
  induction fuel generalizing r entries with
  | zero => rfl
  | succ fuel ih =>
    have passed := length_pass r 0 entries
    rw [Room.steps]
    cases hp : r.pass 0 entries with
    | mk moved rest =>
      rw [hp] at passed
      dsimp only at passed ⊢
      split
      · exact (ih _ _).trans passed
      · split
        · exact passed
        · exact (ih _ _).trans passed

/-- Turns and waits keep the room in step with the operations. -/
theorem Simulates.steps {entries : List (Entry × Stage)} (fuel : ℕ)
    (h : Simulates l jobs start r stage w) (listed : Listed jobs stage 0 entries) :
    ∃ stage' w', Simulates l jobs start (steps fuel r entries).2 stage' w' ∧
      Listed jobs stage' 0 (steps fuel r entries).1 := by
  induction fuel generalizing r stage w entries with
  | zero => exact ⟨stage, w, h, listed⟩
  | succ fuel ih =>
    obtain ⟨stage', w', passed, listed', -⟩ := h.pass listed
    rw [Room.steps]
    cases hp : r.pass 0 entries with
    | mk moved rest =>
      obtain ⟨entries', r'⟩ := rest
      rw [hp] at passed listed'
      dsimp only at passed listed' ⊢
      -- Neither the moment nor the round matters to the operations.
      have later (now round : ℕ) : Simulates l jobs start { r' with now, round } stage' w' :=
        ⟨passed.limiter, passed.reachable, passed.store, passed.stands, passed.queued, passed.admitted⟩
      split
      · exact ih (later r'.now (r'.round + 1)) listed'
      · split
        · exact ⟨stage', w', passed, listed'⟩
        · exact ih (later _ 0) listed'

/-- The job at an index of a list; where there is none, there is nothing to do. -/
def jobAt (entries : List Entry) (i : ℕ) : Job := (entries[i]?.map (·.job)).getD (.sleep 0)

omit [Timer] in
theorem jobAt_of_getElem? {entries : List Entry} {i : ℕ} {e : Entry} (h : entries[i]? = some e) :
    jobAt entries i = e.job := by
  rw [jobAt, h]
  rfl

omit [Timer] in
/-- A room that nobody is in yet is in step with operations that all wait. -/
theorem simulates_start (r : Room MemoryStore) (jobs : ℕ → Job) (empty : r.line = []) :
    Simulates r.limiter jobs r.store.inner r (fun _ => .waiting) ⟨r.store.inner, fun _ => .waiting⟩ where
  limiter := rfl
  reachable := .refl
  store := rfl
  stands := fun _ => rfl
  queued := by
    rw [empty]
    exact ⟨fun _ place => place.elim, by simp, List.nodup_nil⟩
  admitted := fun _ holds => holds.elim

/-- A run of jobs gets to a world of interleaved operations, with the store that it leaves, in which each
operation has come as far as the result of its job says. -/
theorem run_reachable (r : Room MemoryStore) (entries : List Entry) (empty : r.line = []) :
    ∃ w : World ℕ, Reachable r.limiter.bucket r.limiter.scope.lockOf
        (fun i => (jobAt entries i).asked) r.store.inner w ∧
      w.store = (r.run entries).2.store.inner ∧
      ∀ i, ∃ stage, StandsFor (jobAt entries i) stage (w.phase i) ∧
        (r.run entries).1[i]? = entries[i]?.map fun _ => stage.result? := by
  have begun := simulates_start r (jobAt entries) empty
  have listed : Listed (jobAt entries) (fun _ => .waiting) 0 (entries.map fun e => (e, .waiting)) := by
    intro k e s found
    rw [List.getElem?_map, Option.map_eq_some_iff] at found
    obtain ⟨entry, at', same⟩ := found
    cases same
    rw [Nat.zero_add]
    exact ⟨(jobAt_of_getElem? at').symm, rfl⟩
  -- The passes of the run are steps of the simulation, and each job keeps its position in the list.
  obtain ⟨stage, w, ended, listed'⟩ := begun.steps (10 * entries.length + 2) listed
  have length := length_steps (10 * entries.length + 2) r (entries.map fun e => (e, .waiting))
  rw [List.length_map] at length
  refine ⟨w, ended.reachable, ended.store, fun i => ⟨stage i, ended.stands i, ?_⟩⟩
  rw [Room.run]
  dsimp only
  rw [List.getElem?_map]
  rcases lt_or_ge i entries.length with inside | outside
  · rw [List.getElem?_eq_getElem (length.symm ▸ inside), List.getElem?_eq_getElem inside]
    obtain ⟨-, at'⟩ := listed' i _ _ (List.getElem?_eq_getElem (length.symm ▸ inside))
    rw [Nat.zero_add] at at'
    exact congrArg (fun stage => some (Stage.result? stage)) at'
  · rw [List.getElem?_eq_none (length.trans_le outside), List.getElem?_eq_none outside]
    rfl

/-- However jobs wait for each other, fail and are given up, there is an order for each key in which the
operations on it that got an answer give the same answers one after the other, and leave the same for the
key: every answer in the order is what a job has a result from, and every answered operation is there. -/
theorem run_serializable (r : Room MemoryStore) (entries : List Entry) (empty : r.line = [])
    (key : String) : ∃ order : List (Completed ℕ),
      (order.map (·.index)).Nodup ∧
      (∀ e ∈ order, ∃ entry op own moment, ∃ r' : Room MemoryStore,
        entries[e.index]? = some entry ∧ entry.job.operation? = some (op, own) ∧ op.key = key ∧
        (r.run entries).1[e.index]? =
          some (some (moment, (r'.conclude entry.job (.answered e.answer)).1))) ∧
      (∀ i entry op own moment answer, entries[i]? = some entry → entry.job = .operation op own →
        op.key = key → (r.run entries).1[i]? = some (some (moment, .answered (.ok answer))) →
        ∃ now, ⟨i, now, answer⟩ ∈ order) ∧
      (executed r.limiter.bucket (order.map fun e => ((jobAt entries e.index).asked, e.now))
        r.store.inner).1 = order.map (.ok ·.answer) ∧
      (executed r.limiter.bucket (order.map fun e => ((jobAt entries e.index).asked, e.now))
        r.store.inner).2.get? key = (r.run entries).2.store.inner.get? key := by
  obtain ⟨w, reachable, store, stands⟩ := run_reachable r entries empty
  obtain ⟨order, serial⟩ := reachable.consistent.serial key
  refine ⟨order, serial.nodup, ?_, ?_, serial.answers, serial.left.trans (by rw [store])⟩
  · intro e member
    obtain ⟨own, outcome⟩ := (serial.mem_iff e.index e.now e.answer).1 member
    obtain ⟨stage, standsFor, shown⟩ := stands e.index
    obtain ⟨op, limit, moment, r', asked, rfl⟩ := standsFor.over_of_outcome? outcome
    rw [asked_of_operation? asked] at own
    cases at' : entries[e.index]? with
    | none =>
      -- Where there is no job there is no operation either.
      rw [jobAt, at'] at asked
      cases asked
    | some entry =>
      rw [jobAt_of_getElem? at'] at asked shown
      rw [at'] at shown
      exact ⟨entry, op, limit, moment, r', rfl, asked, own, shown⟩
  · intro i entry op own moment answer at' job same shown
    obtain ⟨stage, standsFor, result⟩ := stands i
    rw [jobAt_of_getElem? at', job] at standsFor
    rw [shown, at', Option.map_some, Option.some.injEq] at result
    cases stage with
    | «over» moment' result' =>
      cases result
      obtain ⟨now, outcome⟩ := standsFor.outcome?_of_over
      refine ⟨now, (serial.mem_iff i now answer).2 ?_⟩
      rw [outcome?, jobAt_of_getElem? at', job]
      exact ⟨same, outcome⟩
    | _ => cases result

end Room

end Admission
