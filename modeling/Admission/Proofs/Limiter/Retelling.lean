import Admission.Proofs.Limiter.Remote

/-!
# Limiters over a remote store

A limiter over a store on a server answers like a limiter over a store in memory that gives back every
standing as it is read after it was written. The server keeps the texts of what that store keeps, and
nothing else.

What is read is not always what was written: credits can lose their last bit on the way. As long as no
credits do, the answers are those of a limiter over a plain store in memory; `serve_remote_drifting` is a
run in which some do, and on which a request is let through that a store in memory would have denied.

## Main definitions

* `Retelling`: a store in memory that gives back standings as they are read after they were written.
* `RemoteStore.Mirrors`: a server keeps the texts of the standings in a store in memory.
* `MemoryStore.Stable`: a store of standings that are read as they were written.

## Main results

* `Plan.perform_quiet`: without a script, a plan is carried out as on the store itself.
* `Kept.runOn`: a plan keeps a remote store in step with a retelling one.
* `Limiter.serve_remote`: so does every run, and with stable standings a plain store in memory will do.
-/

namespace Admission

/-! ### Stores without a script -/

section Quiet

variable {σ : Type} [Store σ]

omit [Store σ] in
theorem Scripted.course_quiet {s : Scripted σ} (quiet : s.script = []) (op : StoreOp) :
    s.course op = .direct := by
  rw [course, quiet]
  rfl

omit [Store σ] in
theorem Scripted.script_served {s : Scripted σ} (quiet : s.script = []) (call : StoreCall) (inner : σ) :
    (s.served call inner).script = [] := by
  simp only [served, begin, quiet, takeFault]

/-- A call that nothing happens to is served under any limit, of any length. -/
theorem Course.direct_served {length : Duration → Nat} {limit : Option Duration} :
    Course.direct.Served length limit :=
  ⟨rfl, 0, rfl, fun _ _ => Nat.zero_le _⟩

/-- Where no script disturbs the store, a plan goes as it does on the store itself, whatever the limit. -/
theorem Plan.perform_quiet [Timer] (plan : Plan) (limit : Option Duration) (moment : Nat) {s : Scripted σ}
    (quiet : s.script = []) (waits : List Nat) :
    (plan.perform limit moment s waits).answer? = (plan.runOn s.inner).1.toOption ∧
      (plan.perform limit moment s waits).store.inner = (plan.runOn s.inner).2 ∧
      (plan.perform limit moment s waits).store.script = [] := by
  induction plan generalizing moment s waits with
  | finish answer => exact ⟨rfl, rfl, quiet⟩
  | ask call next ih =>
    have served : (s.course call.op).Served (Timer.runs moment) limit := by
      rw [Scripted.course_quiet quiet]
      exact Course.direct_served
    rw [runOn]
    rcases answers : Store.answer call s.inner with ⟨error | value, inner⟩
    · rw [Plan.perform_ask_failed call served answers]
      exact ⟨rfl, rfl, Scripted.script_served quiet call inner⟩
    · rw [Plan.perform_ask_served call served answers]
      exact ih value _ (Scripted.script_served quiet call inner) _

end Quiet

/-! ### Standings that were written and read -/

/-- A store in memory that gives back each standing as it is read after it was written. -/
structure Retelling where
  memory : MemoryStore

instance : Store Retelling where
  answer
    | .get key, s => (.ok ((s.memory.get? key).map Standing.retold), s)
    | .set key standing, s => (.ok none, ⟨s.memory.set key standing⟩)
    | .delete key, s => (.ok none, ⟨s.memory.delete key⟩)
    | .close, _ => (.ok none, ⟨.empty⟩)

/-- A store of standings that are read as they were written. -/
def MemoryStore.Stable (m : MemoryStore) : Prop :=
  ∀ key standing, m.get? key = some standing → standing.retold = standing

/-- A store is stable if all that it keeps is. -/
theorem MemoryStore.stable_of_entries {m : MemoryStore}
    (stable : ∀ entry ∈ m.table.entries, entry.2.retold = entry.2) : m.Stable := by
  suffices ∀ entries : List (String × Standing), (∀ entry ∈ entries, entry.2.retold = entry.2) →
      ∀ key standing, findKey key entries = some standing → standing.retold = standing from
    this _ stable
  intro entries stable key standing found
  induction entries with
  | nil => cases found
  | cons entry rest ih =>
    rw [List.forall_mem_cons] at stable
    rw [findKey] at found
    split at found
    · cases found
      exact stable.1
    · exact ih stable.2 found

/-- The server keeps exactly the texts of the standings in a store in memory, each under the name of its
key and for as long as it takes. -/
def RemoteStore.Mirrors (r : RemoteStore) (m : MemoryStore) : Prop :=
  ∀ name stored, r.server.table.get? name = some stored ↔
    ∃ key standing text, name = r.fullKey key ∧ m.get? key = some standing ∧
      standing.encode = .ok text ∧ stored = ⟨text, none⟩

/-- A store on a server that works is in step with a store in memory. -/
structure Kept (r : RemoteStore) (m : MemoryStore) : Prop where
  calm : r.server.errors = []
  endless : r.lifetime = none
  storable : ∀ key standing, m.get? key = some standing → standing.Storable
  mirrors : r.Mirrors m

namespace Kept

theorem empty (keyspace : String) : Kept ⟨.empty, keyspace, none⟩ .empty where
  calm := rfl
  endless := rfl
  storable := by simp
  mirrors := by simp [RemoteStore.Mirrors, Server.empty]

variable {r : RemoteStore} {m : MemoryStore} {key : String} (kept : Kept r m)
include kept

/-- What is read is what was written. -/
theorem read : r.read key = (.ok ((m.get? key).map Standing.retold), r.told (.get (r.fullKey key))) := by
  cases stored : m.get? key with
  | none =>
    refine RemoteStore.read_none kept.calm (Option.map_eq_none_iff.2 ?_)
    by_contra found
    obtain ⟨text, found⟩ := Option.ne_none_iff_exists'.1 found
    obtain ⟨other, standing, _, same, there, -⟩ := (kept.mirrors _ _).1 found
    rw [← r.fullKey_injective same, stored] at there
    cases there
  | some standing =>
    obtain ⟨text, written, again⟩ := Standing.exists_encode (kept.storable _ _ stored)
    have found := (kept.mirrors (r.fullKey key) _).2 ⟨key, standing, text, rfl, stored, written, rfl⟩
    exact RemoteStore.read_ok kept.calm (by rw [Server.text?, found]; rfl) again

theorem told_get : Kept (r.told (.get (r.fullKey key))) m :=
  ⟨by rw [RemoteStore.server_told, Server.errors_told, kept.calm], kept.endless, kept.storable,
    kept.mirrors⟩

/-- A standing that is written takes the place of the one that was kept for its key. -/
theorem told_set {standing : Standing} (storable : standing.Storable) {text : String}
    (written : standing.encode = .ok text) :
    Kept (r.told (.set (r.fullKey key) text)) (m.set key standing) where
  calm := by rw [RemoteStore.server_told, Server.errors_told, kept.calm]
  endless := kept.endless
  storable other found stored := by
    rw [MemoryStore.get?_set] at stored
    split at stored
    case isTrue => exact Option.some.inj stored ▸ storable
    case isFalse => exact kept.storable other found stored
  mirrors name stored := by
    simp only [RemoteStore.server_told, Server.table_told_set, RemoteStore.fullKey_told,
      Table.get?_insert, MemoryStore.get?_set]
    by_cases own : name = r.fullKey key
    · rw [if_pos own]
      constructor
      · intro same
        exact ⟨key, standing, text, own, if_pos rfl, written, (Option.some.inj same).symm⟩
      · rintro ⟨other, found, again, same, there, rewritten, rfl⟩
        rw [if_pos (r.fullKey_injective (same.symm.trans own))] at there
        cases there
        cases written.symm.trans rewritten
        rfl
    · rw [if_neg own, kept.mirrors]
      -- No other key has this name.
      refine exists_congr fun other => exists_congr fun found => exists_congr fun again =>
        and_congr_right fun same => ?_
      rw [if_neg fun hit : other = key => own (hit ▸ same)]

/-- A key that is forgotten has no text. -/
theorem told_delete : Kept (r.told (.delete (r.fullKey key))) (m.delete key) where
  calm := by rw [RemoteStore.server_told, Server.errors_told, kept.calm]
  endless := kept.endless
  storable other found stored := by
    rw [MemoryStore.get?_delete] at stored
    split at stored
    case isTrue => cases stored
    case isFalse => exact kept.storable other found stored
  mirrors name stored := by
    simp only [RemoteStore.server_told, Server.table_told_delete, RemoteStore.fullKey_told,
      Table.get?_erase, MemoryStore.get?_delete]
    by_cases own : name = r.fullKey key
    · rw [if_pos own]
      refine iff_of_false nofun ?_
      rintro ⟨other, found, again, same, there, -⟩
      rw [if_pos (r.fullKey_injective (same.symm.trans own))] at there
      cases there
    · rw [if_neg own, kept.mirrors]
      refine exists_congr fun other => exists_congr fun found => exists_congr fun again =>
        and_congr_right fun same => ?_
      rw [if_neg fun hit : other = key => own (hit ▸ same)]

end Kept

/-! ### Plans of storable standings -/

/-- The plan writes nothing but standings that can be read, as long as it reads nothing else. -/
def Plan.Carries : Plan → Prop
  | .finish _ => True
  | .ask (.set _ standing) next => standing.Storable ∧ (next none).Carries
  | .ask (.get _) next =>
    ∀ value : Option Standing, (∀ standing ∈ value, standing.Storable) → (next value).Carries
  | .ask (.delete _) next => (next none).Carries
  | .ask .close _ => False

/-- The plan of an operation after the epoch. -/
theorem Operation.plan_carries (b : Bucket) {now : Instant} (late : 0 ≤ now.nanos) (op : Operation) :
    (op.plan b now).Carries := by
  cases op with
  | grant key =>
    intro value storable
    refine ⟨b.decide_storable late ?_, trivial⟩
    cases value with
    | none => exact b.fresh_storable late
    | some standing => exact storable standing rfl
  | preview key => exact fun _ _ => trivial
  | clear key => trivial

/-- A plan that is carried out on both keeps a store on a server in step with a retelling one. -/
theorem Kept.runOn {plan : Plan} (carries : plan.Carries) {r : RemoteStore} {t : Retelling}
    (kept : Kept r t.memory) :
    (plan.runOn r).1 = (plan.runOn t).1 ∧ Kept (plan.runOn r).2 (plan.runOn t).2.memory := by
  induction plan generalizing r t with
  | finish answer => exact ⟨rfl, kept⟩
  | ask call next ih =>
    cases call with
    | get key =>
      have answers : Store.answer (.get key) r = _ := kept.read
      have told : Store.answer (.get key) t = (.ok ((t.memory.get? key).map Standing.retold), t) := rfl
      rw [Plan.runOn, Plan.runOn, answers, told]
      -- A standing that was read has been told before, so that it can be told again.
      refine ih _ (carries _ fun standing mem => ?_) kept.told_get
      obtain ⟨found, stored, rfl⟩ := Option.mem_map.1 mem
      exact (kept.storable key found stored).retold
    | set key standing =>
      obtain ⟨storable, carries⟩ := carries
      obtain ⟨text, written, -⟩ := Standing.exists_encode storable
      have answers : Store.answer (.set key standing) r = (.ok none, r.told (.set (r.fullKey key) text)) := by
        have command : r.writeCommand key text = .set (r.fullKey key) text := by
          rw [RemoteStore.writeCommand, kept.endless]
        rw [← command]
        exact RemoteStore.write_ok kept.calm written
      have told : Store.answer (.set key standing) t = (.ok none, ⟨t.memory.set key standing⟩) := rfl
      rw [Plan.runOn, Plan.runOn, answers, told]
      exact ih _ carries (kept.told_set storable written)
    | delete key =>
      have answers : Store.answer (.delete key) r = _ := RemoteStore.forget_ok kept.calm key
      have told : Store.answer (.delete key) t = (.ok none, ⟨t.memory.delete key⟩) := rfl
      rw [Plan.runOn, Plan.runOn, answers, told]
      exact ih _ carries kept.told_delete
    | close => exact carries.elim

/-- On stable standings, a retelling store is a store in memory. -/
theorem Operation.runOn_retelling (b : Bucket) (now : Instant) (op : Operation) {m : MemoryStore}
    (stable : m.Stable) :
    ((op.plan b now).runOn (⟨m⟩ : Retelling)).1 = ((op.plan b now).runOn m).1 ∧
      ((op.plan b now).runOn (⟨m⟩ : Retelling)).2 = ⟨((op.plan b now).runOn m).2⟩ := by
  have told (key : String) : Store.answer (.get key) (⟨m⟩ : Retelling) = (.ok (m.get? key), ⟨m⟩) := by
    have same : (m.get? key).map Standing.retold = m.get? key := by
      cases stored : m.get? key with
      | none => rfl
      | some standing => rw [Option.map_some, stable key standing stored]
    rw [← same]
    rfl
  cases op with
  | grant key =>
    rw [plan_grant, Plan.runOn, Plan.runOn, told, m.answer_get]
    exact ⟨rfl, rfl⟩
  | preview key =>
    rw [plan, Plan.runOn, Plan.runOn, told, m.answer_get]
    exact ⟨rfl, rfl⟩
  | clear key => exact ⟨rfl, rfl⟩

/-! ### Runs -/

namespace Limiter

section Timer

variable [Timer] (l : Limiter)

/-- A run keeps a store on a server in step with a retelling one. -/
theorem serve_retelling {asks : List Ask} (late : ∀ ask ∈ asks, 0 ≤ ask.now.nanos)
    {s : Scripted RemoteStore} {t : Scripted Retelling} (calm : s.script = []) (quiet : t.script = [])
    (kept : Kept s.inner t.inner.memory) :
    (l.serve asks s).1 = (l.serve asks t).1 ∧
      Kept (l.serve asks s).2.inner (l.serve asks t).2.inner.memory := by
  induction asks generalizing s t with
  | nil => exact ⟨rfl, kept⟩
  | cons ask rest ih =>
    rw [List.forall_mem_cons] at late
    obtain ⟨same, still⟩ := kept.runOn (ask.op.plan_carries l.bucket late.1)
    obtain ⟨answer, inner, script⟩ :=
      (ask.op.plan l.bucket ask.now).perform_quiet (l.limitOf ask.own) ask.moment calm []
    obtain ⟨answer', inner', script'⟩ :=
      (ask.op.plan l.bucket ask.now).perform_quiet (l.limitOf ask.own) ask.moment quiet []
    rw [← inner, ← inner'] at still
    obtain ⟨later, end'⟩ := ih late.2 script script' still
    refine ⟨?_, end'⟩
    simp only [serve, perform]
    rw [answer, answer', same]
    exact congrArg _ later

/-- As long as its standings are stable, a run over a retelling store is one over a store in memory. -/
theorem serve_stable {asks : List Ask} {s : Scripted Retelling} {t : Scripted MemoryStore}
    (calm : s.script = []) (quiet : t.script = []) (same : s.inner.memory = t.inner)
    (stable : ∀ past, past <+: asks → (l.serve past t).2.inner.Stable) :
    (l.serve asks s).1 = (l.serve asks t).1 ∧
      (l.serve asks s).2.inner.memory = (l.serve asks t).2.inner := by
  induction asks generalizing s t with
  | nil => exact ⟨rfl, same⟩
  | cons ask rest ih =>
    obtain ⟨answer, inner, script⟩ :=
      (ask.op.plan l.bucket ask.now).perform_quiet (l.limitOf ask.own) ask.moment calm []
    obtain ⟨answer', inner', script'⟩ :=
      (ask.op.plan l.bucket ask.now).perform_quiet (l.limitOf ask.own) ask.moment quiet []
    -- Neither is cut short, and stable standings are told as they were.
    have start : t.inner.Stable := stable [] List.nil_prefix
    obtain ⟨equal, left⟩ := ask.op.runOn_retelling l.bucket ask.now start
    have before : s.inner = ⟨t.inner⟩ := by rw [← same]
    rw [← before] at equal left
    have after := inner.trans (left.trans (congrArg Retelling.mk inner'.symm))
    obtain ⟨later, end'⟩ := ih script script' (congrArg Retelling.memory after) fun past isPast =>
      stable (ask :: past) (List.cons_prefix_cons.2 ⟨rfl, isPast⟩)
    refine ⟨?_, end'⟩
    simp only [serve, perform]
    rw [answer, answer', equal]
    exact congrArg _ later

/-- A limiter over a store on a server that starts empty and never fails, with every reading at or after
the epoch, gives the answers of a limiter over a retelling store, and the server keeps exactly the texts of
what that store keeps. If every standing that the run leaves in a plain store in memory at any time is read
as it was written, these are also the answers over that store, and the texts of what it keeps. -/
theorem serve_remote (asks : List Ask) (late : ∀ ask ∈ asks, 0 ≤ ask.now.nanos) (keyspace : String) :
    ((l.serve asks (.ofStore (⟨.empty, keyspace, none⟩ : RemoteStore))).1 =
        (l.serve asks (.ofStore (⟨.empty⟩ : Retelling))).1 ∧
      (l.serve asks (.ofStore (⟨.empty, keyspace, none⟩ : RemoteStore))).2.inner.Mirrors
        (l.serve asks (.ofStore (⟨.empty⟩ : Retelling))).2.inner.memory) ∧
    ((∀ past, past <+: asks → (l.serve past (.ofStore MemoryStore.empty)).2.inner.Stable) →
      (l.serve asks (.ofStore (⟨.empty, keyspace, none⟩ : RemoteStore))).1 =
          (l.serve asks (.ofStore MemoryStore.empty)).1 ∧
        (l.serve asks (.ofStore (⟨.empty, keyspace, none⟩ : RemoteStore))).2.inner.Mirrors
          (l.serve asks (.ofStore MemoryStore.empty)).2.inner) := by
  obtain ⟨answers, kept⟩ := l.serve_retelling (s := .ofStore ⟨.empty, keyspace, none⟩)
    (t := .ofStore ⟨.empty⟩) late rfl rfl (Kept.empty keyspace)
  refine ⟨⟨answers, kept.mirrors⟩, fun stable => ?_⟩
  obtain ⟨same, stores⟩ := l.serve_stable (s := .ofStore ⟨.empty⟩) rfl rfl rfl stable
  exact ⟨answers.trans same, stores ▸ kept.mirrors⟩

end Timer

end Limiter

/-- A limiter that gives one credit per year. -/
def Limiter.onePerYear : Limiter :=
  ⟨⟨.tokenBucket,
    { Quota.onePerSecond with interval := ⟨31536000000000000, by decide⟩, interval_ne_zero := by decide }⟩,
    .global, none⟩

/-- Grants at the start of a year, near the end of it, and 32 ms before its end. -/
def Ask.overTheYear : List Ask :=
  [⟨.grant "key", none, .epoch, 0⟩,
    ⟨.grant "key", none, ⟨28412000000000000, by decide, by decide⟩, 0⟩,
    ⟨.grant "key", none, ⟨31535999968463996, by decide, by decide⟩, 0⟩]

/-- Which requests were let through. -/
def History.allowed (past : History) : List (Option Bool) :=
  past.map fun entry => (entry.2.bind Answer.decision?).map (·.allowed)

/-- The credits after the second of these grants are read one bit too high, and the third request is let
through, which a store in memory denies. Of two requests within a second, all credits are stable. -/
theorem Limiter.serve_remote_drifting :
    (History.allowed (onePerYear.serve Ask.overTheYear
        (.ofStore (⟨.empty, "api", none⟩ : RemoteStore))).1 = [some true, some false, some true] ∧
      History.allowed (onePerYear.serve Ask.overTheYear (.ofStore MemoryStore.empty)).1 =
        [some true, some false, some false]) ∧
    (onePerSecond.serve Ask.twice (.ofStore (⟨.empty, "api", none⟩ : RemoteStore))).1 =
      (onePerSecond.serve Ask.twice (.ofStore MemoryStore.empty)).1 := by
  constructor
  · rw [(onePerYear.serve_remote Ask.overTheYear (by decide) "api").1.1]
    exact ⟨by decide +kernel, by decide +kernel⟩
  · refine ((onePerSecond.serve_remote Ask.twice (by decide) "api").2 fun past isPast => ?_).1
    have stable : ∀ past ∈ Ask.twice.inits,
        ∀ entry ∈ (onePerSecond.serve past (.ofStore MemoryStore.empty)).2.inner.table.entries,
          entry.2.retold = entry.2 := by decide +kernel
    exact MemoryStore.stable_of_entries (stable past ((List.mem_inits _ _).2 isPast))

end Admission
