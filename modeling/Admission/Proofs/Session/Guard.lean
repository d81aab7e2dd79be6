import Mathlib.Logic.Function.Basic
import Admission.Proofs.Limiter.Lifecycle
import Admission.Session.Basic

/-!
# Guarded services

A guard stands before a service and asks the limiter of a session about every request that the service is
ready for. What the service is and does is left open here; its instances share a world, and the guard has
any number of clones, each with an instance of its own. The instance that became ready for a request is the
one that gets it, and a fresh clone of it takes its place.

## Main definitions

* `Service`: a service, by what its instances do.
* `Guarded`: a session and the clones of a guard; `Guarded.drive` drives one of them with a request.
* `Service.recording`: a service that writes down the requests it gets.
* `Guarded.Concluded`: how a request ends, by what the limiter answered.

## Main results

* `Session.request_eq_drive`: the requests of a session are driven so.
* `Guarded.drive_unready`, `Guarded.drive_ready`: one request.
* `Guarded.run_recording`: a run.
* `Guarded.drive_admits`: exactly the requests that are allowed reach the service.
-/

namespace Admission

/-- A service, by what its instances do in a world that they share. -/
structure Service (ω ι ρ α : Type) where
  /-- Makes another instance. -/
  clone : ι → ω → ι × ω
  /-- Drives an instance to readiness, which can fail. -/
  ready : ι → ω → Except String Unit × ι × ω
  /-- Uses an instance up on a request, which can fail. -/
  call : ι → ρ → ω → Except String α × ω

/-- A session whose limiter guards a service, and the clones of the guard. -/
structure Guarded (σ ω ι : Type) where
  session : Session σ
  world : ω
  /-- The instance that the clone of a number holds. -/
  held : Nat → ι

/-- A request on its way, with the instance that is ready for it and the key that it is charged to. -/
structure Passage (ι ρ : Type) where
  inner : ι
  key : String
  request : ρ

/-- What the limiter answered to a request, if it was asked and came to an end, and what became of the
request. -/
structure Driven (α : Type) where
  granted : Option (Except LimiterError Answer)
  result : Option (Except GuardError α)

/-- Whether the limiter answered with a decision that allows the request. -/
def allows : Option (Except LimiterError Answer) → Bool
  | some (.ok answer) => (answer.decision?.map (·.allowed)).getD false
  | _ => false

/-- What becomes of a request once the limiter has answered. -/
def Service.conclude {ω ι ρ α : Type} (service : Service ω ι ρ α) (p : Passage ι ρ)
    (granted : Option (Except LimiterError Answer)) (world : ω) : Option (Except GuardError α) × ω :=
  match granted with
  | none => (none, world)
  | some (.error error) => (some (.error (.limiter error)), world)
  | some (.ok answer) =>
    match Request.denial? answer with
    | some decision => (some (.error (.denied decision)), world)
    | none =>
      let (result, world) := service.call p.inner p.request world
      (some (result.mapError .inner), world)

namespace Guarded

variable {σ ω ι ρ α : Type} [Store σ] [Timer]

section Definitions

variable (service : Service ω ι ρ α) (keyOf : ρ → String) (g : Guarded σ ω ι)

/-- Drives the instance of a clone to readiness. -/
def ready (n : Nat) : Except GuardError Unit × Guarded σ ω ι :=
  let (result, inner, world) := service.ready (g.held n) g.world
  (result.mapError .inner, { g with world, held := Function.update g.held n inner })

/-- Has a clone take a request: its instance goes with the request, and a fresh one takes its place. -/
def take (n : Nat) (r : ρ) : Passage ι ρ × Guarded σ ω ι :=
  let (fresh, world) := service.clone (g.held n) g.world
  (⟨g.held n, keyOf r, r⟩, { g with world, held := Function.update g.held n fresh })

/-- Asks the limiter about a request on its way, and passes the request to its instance if that is
allowed. -/
def finish (p : Passage ι ρ) : Driven α × Guarded σ ω ι :=
  let (granted, session) := g.session.perform (.grant p.key) none
  let (result, world) := service.conclude p granted g.world
  (⟨granted, result⟩, { g with session, world })

/-- Drives a clone with a request: first to readiness, and then on until the request has ended. -/
def drive (n : Nat) (r : ρ) : Driven α × Guarded σ ω ι :=
  match g.ready service n with
  | (.error error, g) => (⟨none, some (.error error)⟩, g)
  | (.ok _, g) =>
    let (p, g) := g.take service keyOf n r
    g.finish service p

/-- What can happen next. -/
inductive Action (σ ρ : Type)
  /-- The guard is cloned under a number. -/
  | clone (source target : Nat)
  | request (n : Nat) (r : ρ)
  /-- Something happens to the session, such as that its clock moves. -/
  | meanwhile (change : Session σ → Session σ)

/-- Does one thing after the other, and tells what became of each request. -/
def run : List (Action σ ρ) → Guarded σ ω ι → List (ρ × Driven α) × Guarded σ ω ι
  | [], g => ([], g)
  | .clone source target :: rest, g =>
    let (inner, world) := service.clone (g.held source) g.world
    run rest { g with world, held := Function.update g.held target inner }
  | .request n r :: rest, g =>
    let (driven, g) := g.drive service keyOf n r
    let (later, g) := run rest g
    ((r, driven) :: later, g)
  | .meanwhile change :: rest, g => run rest { g with session := change g.session }

end Definitions

end Guarded

namespace Guarded

variable {σ ω ι ρ α : Type} [Store σ] [Timer] {service : Service ω ι ρ α} {keyOf : ρ → String}
  {g : Guarded σ ω ι} {n : Nat} {r : ρ}

/-- A clone whose instance does not become ready gets no further. -/
theorem drive_unready {error : String} {inner : ι} {world : ω}
    (unready : service.ready (g.held n) g.world = (.error error, inner, world)) :
    g.drive service keyOf n r = (⟨none, some (.error (.inner error))⟩,
      { g with world, held := Function.update g.held n inner }) := by
  simp only [drive, ready, unready, Except.mapError]

/-- A clone whose instance is ready asks for one grant, and concludes with that instance. -/
theorem drive_ready {inner fresh : ι} {world shared : ω}
    (ready : service.ready (g.held n) g.world = (.ok (), inner, world))
    (cloned : service.clone inner world = (fresh, shared)) :
    g.drive service keyOf n r =
      (⟨(g.session.perform (.grant (keyOf r)) none).1,
          (service.conclude ⟨inner, keyOf r, r⟩ (g.session.perform (.grant (keyOf r)) none).1 shared).1⟩,
        { session := (g.session.perform (.grant (keyOf r)) none).2
          world :=
            (service.conclude ⟨inner, keyOf r, r⟩ (g.session.perform (.grant (keyOf r)) none).1 shared).2
          held := Function.update g.held n fresh }) := by
  simp only [drive, Guarded.ready, ready, Except.mapError, take, Function.update_self, cloned, finish,
    Function.update_idem]

end Guarded

/-! ### The requests of a session -/

/-- A service that does with a request what the request says, and counts what it gets. Whether it is ready
for the next request is a matter of its world. -/
def Service.scripted : Service (Nat × Conduct) Unit Request String where
  clone _ world := ((), world)
  ready _ world := (if world.2 = .unready then .error "inner not ready" else .ok (), (), world)
  call _ r world :=
    (match r.conduct with
      | .serves => .ok ("echo " ++ r.body)
      | .fails => .error ("inner failed on " ++ r.body)
      | .unready => .error "inner not ready", (world.1 + 1, world.2))

section Request

variable {σ : Type} [Store σ]

theorem Session.hits_perform [Timer] (s : Session σ) (op : Operation) (own : Option Duration) :
    (s.perform op own).2.hits = s.hits := by
  simp only [perform]
  split <;> rfl

/-- What becomes of a request in a session is what becomes of it before the service that does as it says. -/
theorem Service.scripted_conclude (r : Request) (result : Except LimiterError Answer) (hits : Nat)
    (conduct : Conduct) :
    Service.scripted.conclude ⟨(), r.key, r⟩ (some result) (hits, conduct) =
      (some (r.conclude result).1, (if (r.conclude result).2 then hits + 1 else hits), conduct) := by
  cases result with
  | error error => rfl
  | ok answer =>
    rcases denial : Request.denial? answer with _ | decision
    · simp only [conclude, Request.conclude, denial, scripted, Request.serve, Request.unreadyError]
      cases r.conduct <;> rfl
    · simp only [conclude, Request.conclude, denial]
      rfl

/-- The guarded requests of a session are driven like any others. -/
theorem Session.request_eq_drive [Timer] (s : Session σ) (r : Request) {driven : Driven String}
    {g : Guarded σ (Nat × Conduct) Unit}
    (drive : Guarded.drive .scripted Request.key ⟨s, (s.hits, r.conduct), fun _ => ()⟩ 0 r = (driven, g)) :
    s.request r = (driven.result, { g.session with hits := g.world.1 }) := by
  by_cases unready : r.conduct = .unready
  · have fails : Service.scripted.ready () (s.hits, r.conduct) =
        (.error "inner not ready", (), (s.hits, r.conduct)) := by
      simp only [Service.scripted, if_pos unready]
    rw [Guarded.drive_unready fails] at drive
    cases drive
    rw [request, if_pos unready]
    rfl
  · have ready : Service.scripted.ready () (s.hits, r.conduct) = (.ok (), (), (s.hits, r.conduct)) := by
      simp only [Service.scripted, if_neg unready]
    have cloned : Service.scripted.clone () (s.hits, r.conduct) = ((), (s.hits, r.conduct)) := rfl
    rw [Guarded.drive_ready ready cloned] at drive
    cases drive
    have hits := s.hits_perform (.grant r.key) none
    rw [request, if_neg unready]
    rcases performed : s.perform (.grant r.key) none with ⟨_ | result, left⟩
    · rw [performed] at hits
      simp only [Service.conclude, ← hits]
    · rw [performed] at hits
      have hits : left.hits = s.hits := hits
      simp only [Service.scripted_conclude, hits]

end Request

/-! ### Who reaches the service -/

/-- A grant that is answered is answered with a decision. -/
theorem Session.perform_grant_answered {σ : Type} [Store σ] [Timer] {s : Session σ} {key : String}
    {own : Option Duration} {answer : Answer} (answered : (s.perform (.grant key) own).1 = some (.ok answer)) :
    ∃ decision, answer = .granted decision := by
  simp only [perform] at answered
  split at answered
  · cases answered
  · case _ ending ended =>
    cases ending with
    | failed op error => cases answered
    | answered given =>
      cases answered
      have answers := s.limiter.answers_of_perform ended
      cases answer with
      | granted decision => exact ⟨decision, rfl⟩
      | _ => exact answers.elim

/-- A service that writes down the requests it gets. -/
def Service.recording {ω ι ρ α : Type} (service : Service ω ι ρ α) : Service (ω × List ρ) ι ρ α where
  clone inner world := ((service.clone inner world.1).1, (service.clone inner world.1).2, world.2)
  ready inner world :=
    ((service.ready inner world.1).1, (service.ready inner world.1).2.1, (service.ready inner world.1).2.2,
      world.2)
  call inner r world :=
    ((service.call inner r world.1).1, (service.call inner r world.1).2, world.2 ++ [r])

namespace Guarded

variable {σ ω ι ρ α : Type} [Store σ] {service : Service ω ι ρ α} {keyOf : ρ → String}

/-- How a request ends that an instance is ready for, by what the limiter answered; and whether the
instance gets it. -/
inductive Concluded (service : Service ω ι ρ α) (inner : ι) (world : ω) (r : ρ) :
    Option (Except LimiterError Answer) → Option (Except GuardError α) → Bool → Prop
  /-- The grant never comes to an end, and neither does the request. -/
  | waiting : Concluded service inner world r none none false
  | failed (error : LimiterError) :
    Concluded service inner world r (some (.error error)) (some (.error (.limiter error))) false
  | denied (decision : Decision) (denied : decision.allowed = false) :
    Concluded service inner world r (some (.ok (.granted decision))) (some (.error (.denied decision))) false
  /-- The instance gets the request, and what comes of that is the end of it. -/
  | passed (decision : Decision) (allowed : decision.allowed = true) :
    Concluded service inner world r (some (.ok (.granted decision)))
      (some ((service.call inner r world).1.mapError .inner)) true

end Guarded

section Recording

variable {σ ω ι ρ α : Type} [Store σ] {keyOf : ρ → String}

/-- What becomes of a request that an instance is ready for. -/
theorem Service.concluded_recording (service : Service ω ι ρ α)
    {granted : Option (Except LimiterError Answer)}
    (decided : ∀ answer, granted = some (.ok answer) → ∃ decision, answer = .granted decision)
    (p : Passage ι ρ) (world : ω) (log : List ρ) :
    Guarded.Concluded service p.inner world p.request granted
        (service.recording.conclude p granted (world, log)).1
        (allows granted) ∧
      (service.recording.conclude p granted (world, log)).2.2 =
        if allows granted then log ++ [p.request] else log := by
  match granted with
  | none => exact ⟨.waiting, rfl⟩
  | some (.error error) => exact ⟨.failed error, rfl⟩
  | some (.ok answer) =>
    obtain ⟨decision, rfl⟩ := decided answer rfl
    cases allowed : decision.allowed with
    | false =>
      have denial : Request.denial? (.granted decision) = some decision := by
        simp [Request.denial?, Answer.decision?, allowed]
      simp only [Service.conclude, denial, allows, Answer.decision?, Option.map_some, allowed]
      exact ⟨.denied decision allowed, rfl⟩
    | true =>
      have denial : Request.denial? (.granted decision) = none := by
        simp [Request.denial?, Answer.decision?, allowed]
      simp only [Service.conclude, denial, allows, Answer.decision?, Option.map_some, allowed]
      exact ⟨.passed decision allowed, rfl⟩

end Recording

namespace Guarded

variable {σ ω ι ρ α : Type} [Store σ] [Timer] {service : Service ω ι ρ α} {keyOf : ρ → String}

/-- A request that no instance is ready for touches neither the session nor the service. -/
theorem drive_recording_unready {g : Guarded σ (ω × List ρ) ι} {n : Nat} {r : ρ} {error : String}
    (unready : (service.ready (g.held n) g.world.1).1 = .error error) :
    (g.drive service.recording keyOf n r).1 = ⟨none, some (.error (.inner error))⟩ ∧
      (g.drive service.recording keyOf n r).2.session = g.session ∧
      (g.drive service.recording keyOf n r).2.world.2 = g.world.2 := by
  have fails : service.recording.ready (g.held n) g.world = (.error error,
      (service.ready (g.held n) g.world.1).2.1, (service.ready (g.held n) g.world.1).2.2, g.world.2) := by
    rw [← unready]
    rfl
  rw [drive_unready fails]
  exact ⟨rfl, rfl, rfl⟩

/-- A request that an instance is ready for is granted once, and that instance gets it if it is allowed. -/
theorem drive_recording_ready {g : Guarded σ (ω × List ρ) ι} {n : Nat} {r : ρ} {inner : ι} {world : ω}
    (ready : service.ready (g.held n) g.world.1 = (.ok (), inner, world)) :
    (g.drive service.recording keyOf n r).1.granted = (g.session.perform (.grant (keyOf r)) none).1 ∧
      (g.drive service.recording keyOf n r).2.session = (g.session.perform (.grant (keyOf r)) none).2 ∧
      Concluded service inner (service.clone inner world).2 r
        (g.session.perform (.grant (keyOf r)) none).1 (g.drive service.recording keyOf n r).1.result
        (allows (g.session.perform (.grant (keyOf r)) none).1) ∧
      (g.drive service.recording keyOf n r).2.world.2 =
        if allows (g.session.perform (.grant (keyOf r)) none).1 then g.world.2 ++ [r] else g.world.2 := by
  have readied : service.recording.ready (g.held n) g.world = (.ok (), inner, world, g.world.2) := by
    simp only [Service.recording, ready]
  have cloned : service.recording.clone inner (world, g.world.2) =
    ((service.clone inner world).1, (service.clone inner world).2, g.world.2) := rfl
  have decided (answer : Answer) :
      (g.session.perform (.grant (keyOf r)) none).1 = some (.ok answer) →
        ∃ decision, answer = .granted decision := Session.perform_grant_answered
  obtain ⟨concluded, log⟩ := service.concluded_recording decided ⟨inner, keyOf r, r⟩
    (service.clone inner world).2 g.world.2
  rw [drive_ready readied cloned]
  exact ⟨rfl, rfl, concluded, log⟩

/-- Whether an instance is ready or not, the service gets a request exactly if it is allowed. -/
theorem drive_recording_log (g : Guarded σ (ω × List ρ) ι) (n : Nat) (r : ρ) :
    (g.drive service.recording keyOf n r).2.world.2 =
      if allows (g.drive service.recording keyOf n r).1.granted then g.world.2 ++ [r] else g.world.2 := by
  rcases ready : service.ready (g.held n) g.world.1 with ⟨error | _, inner, world⟩
  · have unready : (service.ready (g.held n) g.world.1).1 = .error error := by rw [ready]
    obtain ⟨driven, -, log⟩ := drive_recording_unready unready
    rw [driven, log]
    rfl
  · obtain ⟨granted, -, -, log⟩ := drive_recording_ready ready
    rw [granted, log]

/-- Over a run, the service gets exactly the requests that are allowed, in order. -/
theorem run_recording (actions : List (Action σ ρ)) (g : Guarded σ (ω × List ρ) ι) :
    (run service.recording keyOf actions g).2.world.2 = g.world.2 ++
      ((run service.recording keyOf actions g).1.filter fun e => allows e.2.granted).map (·.1) := by
  induction actions generalizing g with
  | nil => simp [run]
  | cons action rest ih =>
    cases action with
    | clone source target => exact ih _
    | meanwhile change => exact ih _
    | request n r =>
      simp only [run, ih, drive_recording_log g n r, List.filter_cons]
      split <;> simp

/-- Whatever a service does, whichever clones of its guard are driven, and whatever becomes of the calls on
the store: a request that the service is not ready for ends there, and neither the session nor the service
notice it. Any other takes one grant of its key, and leaves the session as that grant does; it reaches the
service once if the grant allows it, and else not at all, and ends as `Concluded` says. Over a run, the
service gets exactly the requests that are allowed. The guarded requests of a session are driven so. -/
theorem drive_admits (service : Service ω ι ρ α) (keyOf : ρ → String) :
    (∀ (g : Guarded σ (ω × List ρ) ι) (n : Nat) (r : ρ) (error : String),
      (service.ready (g.held n) g.world.1).1 = .error error →
        (g.drive service.recording keyOf n r).1 = ⟨none, some (.error (.inner error))⟩ ∧
          (g.drive service.recording keyOf n r).2.session = g.session ∧
          (g.drive service.recording keyOf n r).2.world.2 = g.world.2) ∧
    (∀ (g : Guarded σ (ω × List ρ) ι) (n : Nat) (r : ρ) (inner : ι) (world : ω),
      service.ready (g.held n) g.world.1 = (.ok (), inner, world) →
        (g.drive service.recording keyOf n r).1.granted = (g.session.perform (.grant (keyOf r)) none).1 ∧
          (g.drive service.recording keyOf n r).2.session = (g.session.perform (.grant (keyOf r)) none).2 ∧
          Concluded service inner (service.clone inner world).2 r
            (g.session.perform (.grant (keyOf r)) none).1 (g.drive service.recording keyOf n r).1.result
            (allows (g.session.perform (.grant (keyOf r)) none).1) ∧
          (g.drive service.recording keyOf n r).2.world.2 =
            if allows (g.session.perform (.grant (keyOf r)) none).1 then g.world.2 ++ [r]
            else g.world.2) ∧
    (∀ (actions : List (Action σ ρ)) (g : Guarded σ (ω × List ρ) ι),
      (run service.recording keyOf actions g).2.world.2 = g.world.2 ++
          ((run service.recording keyOf actions g).1.filter fun e => allows e.2.granted).map (·.1) ∧
        (run service.recording keyOf actions g).2.world.2.length = g.world.2.length +
          (run service.recording keyOf actions g).1.countP fun e => allows e.2.granted) ∧
    ∀ (s : Session σ) (r : Request) (driven : Driven String) (g : Guarded σ (Nat × Conduct) Unit),
      drive .scripted Request.key ⟨s, (s.hits, r.conduct), fun _ => ()⟩ 0 r = (driven, g) →
        s.request r = (driven.result, { g.session with hits := g.world.1 }) := by
  refine ⟨fun g n r error => drive_recording_unready, fun g n r inner world => drive_recording_ready,
    fun actions g => ⟨run_recording actions g, ?_⟩, fun s r driven g => s.request_eq_drive r⟩
  rw [run_recording, List.length_append, List.length_map, List.countP_eq_length_filter]

end Guarded

/-- A session whose limiter gives one credit per second, and nobody to tell of it. -/
def Session.onePerSecond : Session MemoryStore :=
  .start .onePerSecond .empty (.ofInstant .second) (.start false .absent)

/-- A request that the service fails on. -/
def Request.failing : Request := ⟨"key", "first", .fails⟩

/-- A request that the service would serve. -/
def Request.late : Request := ⟨"key", "second", .serves⟩

/-- Clones of a guard before a service that writes down what it gets. -/
def Guarded.scripted (conduct : Conduct) : Guarded MemoryStore ((Nat × Conduct) × List Request) Unit :=
  ⟨Session.onePerSecond, ((0, conduct), []), fun _ => ()⟩

/-- While the service is not ready, the limiter is not asked. The service fails on the first request that
it is ready for, which has spent the credit all the same; the second request is denied, through another
clone, and does not reach it. -/
theorem Guarded.drive_admits_failing :
    ((scripted .unready).drive Service.scripted.recording Request.key 0 .failing).2.session =
        Session.onePerSecond ∧
      ((scripted .serves).drive Service.scripted.recording Request.key 0 .failing).2.world.2 = [.failing] ∧
      (Guarded.run Service.scripted.recording Request.key
        [.request 0 .failing, .clone 0 1, .request 1 .late] (scripted .serves)).2.world.2 = [.failing] ∧
      (Session.onePerSecond.request .failing).1 = some (.error (.inner "inner failed on first")) := by
  obtain ⟨unready, ready, run, request⟩ :=
    drive_admits (σ := MemoryStore) Service.scripted Request.key
  refine ⟨(unready (scripted .unready) 0 .failing "inner not ready" rfl).2.1, ?_, ?_, ?_⟩
  · rw [(ready (scripted .serves) 0 .failing () (0, .serves) rfl).2.2.2]
    decide +kernel
  · rw [(run _ _).1]
    decide +kernel
  · rw [request Session.onePerSecond .failing _ _ rfl]
    decide +kernel

end Admission
