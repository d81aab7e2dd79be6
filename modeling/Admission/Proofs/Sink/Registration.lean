import Admission.Sink.Metrics
import Mathlib.Data.List.Perm.Basic

/-!
# Registering metrics

Metrics are registered one after the other. This succeeds if nothing is registered that cannot be told from
one of them, and then they are registered and nothing else has changed. Otherwise it stops at the first metric
that is refused, and the metrics before that one stay registered: nothing has changed only if it was the first
of all. What stays is in the way of another attempt, also when what was in the way of the first one is gone.

## Main definitions

* `LawfulRegistrar`: registrars that refuse a metric exactly if they cannot tell it from what they hold.
* `Registrar.Taken`: something is registered that cannot be told from a metric.
* `Registrar.Halted`: what is left of an attempt that stops at a metric.

## Main results

* `Registrar.taken_iff_of_perm`: what is taken after some registrations more.
* `Registrar.registerAll_of_free`, `Registrar.registerAll_of_taken`: as long as the metrics are free, and at
  one that is taken.
* `Registrar.enrol_ok_iff`, `Registrar.halted`: when all metrics are registered, and what happens otherwise.
* `Registrar.enrol_cleared_ok_iff`: when another attempt succeeds.
* `Registrar.enrol_all_or_halted`: what an attempt to register all metrics does to any registrar.
-/

namespace Admission

open Registrar in
/-- Registrars that refuse a metric exactly if something is registered that they cannot tell from it, that hold
what they have registered, and that change nothing else. They can tell the metrics from each other. -/
class LawfulRegistrar (ρ : Type) {ε : Type} [Registrar ρ ε] : Prop where
  ok_iff (r : ρ) (metric : Metric) :
    (register r metric).2 = .ok () ↔ ∀ name ∈ names r, fingerprint ρ name ≠ fingerprint ρ metric.name
  names_of_ok {r : ρ} {metric : Metric} (ok : (register r metric).2 = .ok ()) :
    (names (register r metric).1).Perm (names r ++ [metric.name])
  names_of_error {r : ρ} {metric : Metric} {cause : ε} (refused : (register r metric).2 = .error cause) :
    (names (register r metric).1).Perm (names r)
  apart {metric other : Metric} (same : fingerprint ρ metric.name = fingerprint ρ other.name) :
    metric = other

namespace Registry

/-- What it cannot tell from something that it holds, a registry refuses and stays as it is; the name of
anything else it takes. -/
theorem register_cases (r : Registry) (metric : Metric) :
    ((∃ name ∈ r.names, fingerprint name = fingerprint metric.name) ∧
      Registrar.register r metric = (r, .error .alreadyRegistered)) ∨
    ((∀ name ∈ r.names, fingerprint name ≠ fingerprint metric.name) ∧
      Registrar.register r metric = (⟨r.names ++ [metric.name]⟩, .ok ())) := by
  by_cases taken : r.names.any (fingerprint · = fingerprint metric.name) = true
  · exact .inl ⟨by simpa using taken, if_pos taken⟩
  · exact .inr ⟨by simpa using taken, if_neg taken⟩

instance : LawfulRegistrar Registry where
  ok_iff r metric := by
    rcases register_cases r metric with ⟨⟨name, held, same⟩, refused⟩ | ⟨free, made⟩
    · rw [refused]
      exact iff_of_false nofun fun free => free name held same
    · rw [made]
      exact iff_of_true rfl free
  names_of_ok {r metric} ok := by
    rcases register_cases r metric with ⟨-, refused⟩ | ⟨-, made⟩
    · rw [refused] at ok
      cases ok
    · rw [made]
      exact .refl _
  names_of_error {r metric cause} error := by
    rcases register_cases r metric with ⟨-, refused⟩ | ⟨-, made⟩
    · rw [refused]
    · rw [made] at error
      cases error
  apart {metric other} same := by
    have distinct : ∀ a ∈ Metric.all, ∀ b ∈ Metric.all,
        fingerprint a.name = fingerprint b.name → a = b := by decide +kernel
    exact distinct metric metric.mem_all other other.mem_all same

end Registry

theorem Metric.nodup_all : all.Nodup := by decide

/-- Only the first metric has none before it. -/
theorem Metric.eq_nil_iff_of_split {before after : List Metric} {metric : Metric}
    (split : all = before ++ metric :: after) : before = [] ↔ metric = .grants := by
  cases before with
  | nil =>
    cases split
    exact iff_of_true rfl rfl
  | cons first earlier =>
    refine iff_of_false (List.cons_ne_nil _ _) ?_
    rintro rfl
    have again : .grants ∈ all.tail := by
      rw [split]
      exact List.mem_append_right earlier List.mem_cons_self
    exact absurd again (by decide)

namespace Registrar

variable {ρ ε : Type} [Registrar ρ ε]

/-- Something is registered that cannot be told from the metric. -/
def Taken (r : ρ) (metric : Metric) : Prop :=
  ∃ name ∈ names r, fingerprint ρ name = fingerprint ρ metric.name

instance (r : ρ) (metric : Metric) : Decidable (Taken r metric) :=
  inferInstanceAs (Decidable (∃ name ∈ names r, fingerprint ρ name = fingerprint ρ metric.name))

variable {r r' : ρ} {metric : Metric} {before after : List Metric}

/-! ### One metric after the other -/

theorem registerAll_cons_of_ok (ok : (register r metric).2 = .ok ()) :
    registerAll r (metric :: after) = registerAll (register r metric).1 after := by
  rw [registerAll]
  split
  case h_1 made => rw [made]
  case h_2 made => cases ok.symm.trans (congrArg Prod.snd made)

theorem registerAll_cons_of_error {cause : ε} (refused : (register r metric).2 = .error cause) :
    registerAll r (metric :: after) = ((register r metric).1, .error cause) := by
  rw [registerAll]
  split
  case h_1 made => cases refused.symm.trans (congrArg Prod.snd made)
  case h_2 made =>
    cases refused.symm.trans (congrArg Prod.snd made)
    rw [made]

theorem registerAll_append_of_ok (ok : (registerAll r before).2 = .ok ()) :
    registerAll r (before ++ after) = registerAll (registerAll r before).1 after := by
  induction before generalizing r with
  | nil => rfl
  | cons metric rest ih =>
    cases outcome : (register r metric).2 with
    | ok =>
      rw [registerAll_cons_of_ok outcome] at ok ⊢
      rw [List.cons_append, registerAll_cons_of_ok outcome, ih ok]
    | error cause =>
      rw [registerAll_cons_of_error outcome] at ok
      cases ok

/-- Nothing has changed only if nothing was registered. -/
theorem perm_names_iff (more : (names r').Perm (names r ++ before.map Metric.name)) :
    (names r').Perm (names r) ↔ before = [] := by
  constructor
  · intro same
    have few := (more.symm.trans same).length_eq
    rw [List.length_append, Nat.add_eq_left, List.length_map] at few
    exact List.eq_nil_of_length_eq_zero few
  · rintro rfl
    rwa [List.map_nil, List.append_nil] at more

/-- The first of the metrics that are taken. -/
theorem exists_first_taken (some : ∃ metric, Taken r metric) :
    ∃ before metric after, Metric.all = before ++ metric :: after ∧ Taken r metric ∧
      ∀ earlier ∈ before, ¬Taken r earlier := by
  obtain ⟨metric, taken⟩ := some
  have found : (Metric.all.find? fun metric => Taken r metric).isSome = true :=
    List.find?_isSome.2 ⟨metric, metric.mem_all, decide_eq_true taken⟩
  obtain ⟨first, found⟩ := Option.isSome_iff_exists.1 found
  obtain ⟨taken, before, after, split, free⟩ := List.find?_eq_some_iff_append.1 found
  exact ⟨before, first, after, split, of_decide_eq_true taken, by simpa using free⟩

variable [LawfulRegistrar ρ]

theorem register_ok_iff : (register r metric).2 = .ok () ↔ ¬Taken r metric := by
  rw [LawfulRegistrar.ok_iff, Taken]
  simp

/-- Where some metrics were registered, these are taken, and what was taken before. -/
theorem taken_iff_of_perm (more : (names r').Perm (names r ++ before.map Metric.name)) :
    Taken r' metric ↔ Taken r metric ∨ metric ∈ before := by
  have among : (∃ name ∈ before.map Metric.name, fingerprint ρ name = fingerprint ρ metric.name) ↔
      metric ∈ before := by
    constructor
    · rintro ⟨name, listed, same⟩
      obtain ⟨other, listed, rfl⟩ := List.mem_map.1 listed
      rwa [← LawfulRegistrar.apart same]
    · exact fun listed => ⟨metric.name, List.mem_map_of_mem listed, rfl⟩
  simp only [Taken, more.mem_iff, List.mem_append, or_and_right, exists_or, among]

/-- As long as metrics are free, they are registered and nothing else changes. -/
theorem registerAll_of_free (distinct : before.Nodup) (free : ∀ metric ∈ before, ¬Taken r metric) :
    (registerAll r before).2 = .ok () ∧
      (names (registerAll r before).1).Perm (names r ++ before.map Metric.name) := by
  induction before generalizing r with
  | nil => exact ⟨rfl, by rw [List.map_nil, List.append_nil, registerAll]⟩
  | cons metric rest ih =>
    obtain ⟨new, distinct⟩ := List.nodup_cons.1 distinct
    obtain ⟨first, free⟩ := List.forall_mem_cons.1 free
    have ok := register_ok_iff.2 first
    have added : (names (register r metric).1).Perm (names r ++ [metric].map Metric.name) :=
      LawfulRegistrar.names_of_ok ok
    -- The metrics that come later are still free.
    have free' : ∀ other ∈ rest, ¬Taken (register r metric).1 other := by
      intro other listed taken
      rcases (taken_iff_of_perm added).1 taken with taken | same
      · exact free other listed taken
      · exact new (List.mem_singleton.1 same ▸ listed)
    obtain ⟨done, all⟩ := ih distinct free'
    rw [registerAll_cons_of_ok ok]
    refine ⟨done, all.trans ?_⟩
    rw [List.map_cons, List.append_cons]
    exact added.append_right _

/-- At a metric that is taken it ends, for the cause for which this one is refused, and those before it stay
registered. -/
theorem registerAll_of_taken (distinct : before.Nodup) (free : ∀ earlier ∈ before, ¬Taken r earlier)
    (taken : Taken r metric) :
    (∃ cause, (register (registerAll r before).1 metric).2 = .error cause ∧
      (registerAll r (before ++ metric :: after)).2 = .error cause) ∧
      (names (registerAll r (before ++ metric :: after)).1).Perm (names r ++ before.map Metric.name) := by
  obtain ⟨ok, kept⟩ := registerAll_of_free distinct free
  have still := (taken_iff_of_perm kept).2 (.inl taken)
  rw [registerAll_append_of_ok ok]
  cases outcome : (register (registerAll r before).1 metric).2 with
  | ok => exact absurd still (register_ok_iff.1 outcome)
  | error cause =>
    rw [registerAll_cons_of_error outcome]
    exact ⟨⟨cause, rfl, rfl⟩, (LawfulRegistrar.names_of_error outcome).trans kept⟩

/-! ### All metrics -/

theorem enrol_of_free (free : ∀ metric, ¬Taken r metric) :
    (enrol r).2 = .ok () ∧ (names (enrol r).1).Perm (names r ++ Metric.all.map Metric.name) :=
  registerAll_of_free Metric.nodup_all fun metric _ => free metric

theorem enrol_of_taken (split : Metric.all = before ++ metric :: after) (taken : Taken r metric)
    (free : ∀ earlier ∈ before, ¬Taken r earlier) :
    (∃ cause, (register (registerAll r before).1 metric).2 = .error cause ∧ (enrol r).2 = .error cause) ∧
      (names (enrol r).1).Perm (names r ++ before.map Metric.name) := by
  have distinct : before.Nodup := (List.nodup_append.1 (split ▸ Metric.nodup_all)).1
  rw [enrol, split]
  exact registerAll_of_taken distinct free taken

/-- All metrics are registered exactly if none of them is taken. -/
theorem enrol_ok_iff : (enrol r).2 = .ok () ↔ ∀ metric, ¬Taken r metric := by
  refine ⟨fun ok => ?_, fun free => (enrol_of_free free).1⟩
  by_contra some
  obtain ⟨before, metric, after, split, taken, free⟩ := exists_first_taken (not_forall_not.1 some)
  obtain ⟨cause, -, failed⟩ := (enrol_of_taken split taken free).1
  cases ok.symm.trans failed

/-! ### Attempts that stop half way -/

/-- When what cannot be told from a metric is taken out, the other metrics are as free as before. -/
theorem taken_cleared_iff {cleared : ρ} {other : Metric}
    (rest : (names cleared).Perm ((names r).filter (fingerprint ρ · ≠ fingerprint ρ metric.name))) :
    Taken cleared other ↔ other ≠ metric ∧ Taken r other := by
  simp only [Taken, rest.mem_iff, List.mem_filter, decide_eq_true_eq]
  constructor
  · rintro ⟨name, ⟨listed, apart⟩, same⟩
    exact ⟨fun eq => apart (eq ▸ same), name, listed, same⟩
  · rintro ⟨apart, name, listed, same⟩
    exact ⟨name, ⟨listed, fun eq => apart (LawfulRegistrar.apart (same.symm.trans eq))⟩, same⟩

/-- When what was in the way of the first metric taken is taken out, all metrics are registered only if none was
registered before it, and no other one is taken. -/
theorem enrol_cleared_ok_iff {cleared : ρ} (taken : Taken r metric) (free : ∀ earlier ∈ before, ¬Taken r earlier)
    (kept : (names r').Perm (names r ++ before.map Metric.name))
    (rest : (names cleared).Perm ((names r').filter (fingerprint ρ · ≠ fingerprint ρ metric.name))) :
    (enrol cleared).2 = .ok () ↔ before = [] ∧ ∀ other, Taken r other → other = metric := by
  simp only [enrol_ok_iff, taken_cleared_iff rest, taken_iff_of_perm kept, not_and, not_or]
  constructor
  · refine fun clear => ⟨List.eq_nil_iff_forall_not_mem.2 fun earlier listed => ?_, fun other taken => ?_⟩
    · have apart : earlier ≠ metric := fun eq => free earlier listed (eq ▸ taken)
      exact (clear earlier apart).2 listed
    · by_contra apart
      exact (clear other apart).1 taken
  · rintro ⟨rfl, only⟩ other apart
    exact ⟨fun taken => apart (only other taken), List.not_mem_nil⟩

/-- What is left of an attempt to register all metrics that stops at a metric. -/
structure Halted (r : ρ) (before : List Metric) (metric : Metric) : Prop where
  split : ∃ after, Metric.all = before ++ metric :: after
  /-- It is the first metric that is taken. -/
  taken : Taken r metric
  free : ∀ earlier ∈ before, ¬Taken r earlier
  /-- The attempt fails for the cause for which this metric is refused. -/
  failed : ∃ cause, (register (registerAll r before).1 metric).2 = .error cause ∧ (enrol r).2 = .error cause
  /-- The metrics before it stay registered. -/
  kept : (names (enrol r).1).Perm (names r ++ before.map Metric.name)
  /-- So nothing has changed only if it is the first metric of all. -/
  unchanged_iff : (names (enrol r).1).Perm (names r) ↔ metric = .grants
  /-- When what was in the way of the metric is taken out, the next attempt succeeds only if it is the first
  metric of all, and no other one is taken. -/
  again_iff : ∀ cleared : ρ,
    (names cleared).Perm ((names (enrol r).1).filter (fingerprint ρ · ≠ fingerprint ρ metric.name)) →
      ((enrol cleared).2 = .ok () ↔ metric = .grants ∧ ∀ other, Taken r other → other = metric)

theorem halted (split : Metric.all = before ++ metric :: after) (taken : Taken r metric)
    (free : ∀ earlier ∈ before, ¬Taken r earlier) : Halted r before metric := by
  obtain ⟨failed, kept⟩ := enrol_of_taken split taken free
  refine ⟨⟨after, split⟩, taken, free, failed, kept, ?_, fun cleared rest => ?_⟩
  · rw [← Metric.eq_nil_iff_of_split split]
    exact perm_names_iff kept
  · rw [← Metric.eq_nil_iff_of_split split]
    exact enrol_cleared_ok_iff taken free kept rest

/-- Whatever is registered: an attempt to register all metrics succeeds exactly if none of them is taken, and
then these are registered and nothing else has changed. If it fails, it has stopped at the first metric that is
taken. -/
theorem enrol_all_or_halted (ρ : Type) {ε : Type} [Registrar ρ ε] [LawfulRegistrar ρ] (r : ρ) :
    ((enrol r).2 = .ok () ↔ ∀ metric, ¬Taken r metric) ∧
    ((enrol r).2 = .ok () → (names (enrol r).1).Perm (names r ++ Metric.all.map Metric.name)) ∧
    ((enrol r).2 ≠ .ok () → ∃ before metric, Halted r before metric) := by
  refine ⟨enrol_ok_iff, fun ok => (enrol_of_free (enrol_ok_iff.1 ok)).2, fun failed => ?_⟩
  rw [Ne, enrol_ok_iff] at failed
  obtain ⟨before, metric, after, split, taken, free⟩ := exists_first_taken (not_forall_not.1 failed)
  exact ⟨before, metric, halted split taken free⟩

end Registrar

namespace Registry

-- A name in the middle is enough to leave the ones before it behind.
example : (mk ["throttle_clear_total"]).enrol =
    (⟨["throttle_clear_total", "throttle_grant_total", "throttle_grant_allowed_total",
      "throttle_grant_denied_total", "throttle_preview_total"]⟩, false) := by decide +kernel

/-- A registry that holds a name with the fingerprint of the last metric. -/
def lookalike : Registry := ⟨["app_daif746h0j55o"]⟩

/-- What an attempt on it leaves behind when that name is taken out. -/
def leftovers : Registry := ⟨Metric.all.dropLast.map Metric.name⟩

/-- None of the names of the metrics is registered, and yet the last metric is refused. The other ones stay
registered, and are in the way of the next attempt when the name in the way of the first one is gone. -/
theorem halted_at_lookalike :
    (∀ metric : Metric, metric.name ∉ lookalike.names) ∧ lookalike.enrol.2 = false ∧
      (∃ before metric, Registrar.Halted lookalike before metric) ∧
      lookalike.enrol.1.names = lookalike.names ++ leftovers.names ∧
      ¬lookalike.enrol.1.names.Perm lookalike.names ∧ (Registrar.enrol leftovers).2 ≠ .ok () := by
  obtain ⟨before, metric, halted⟩ :=
    (Registrar.enrol_all_or_halted Registry lookalike).2.2 (by decide +kernel)
  have only : ∀ metric ∈ Metric.all, Registrar.Taken lookalike metric → metric = .remaining := by
    decide +kernel
  have last := only metric metric.mem_all halted.taken
  subst last
  refine ⟨fun metric => ?_, by decide +kernel, ⟨before, .remaining, halted⟩, by decide +kernel, fun same => ?_,
    fun again => ?_⟩
  · have absent : ∀ metric ∈ Metric.all, metric.name ∉ lookalike.names := by decide +kernel
    exact absent metric metric.mem_all
  · cases halted.unchanged_iff.1 same
  · have rest : leftovers.names = (Registrar.enrol lookalike).1.names.filter
        (fingerprint · ≠ fingerprint Metric.remaining.name) := by decide +kernel
    have first := ((halted.again_iff leftovers (.of_eq rest)).1 again).1
    cases first

end Registry

end Admission
