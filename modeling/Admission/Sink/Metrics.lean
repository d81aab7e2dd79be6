import Admission.Binary64.Arithmetic
import Admission.Event

/-!
# Metrics

Counters and a gauge per key, for a metrics system that reads them from outside. The metrics are
registered under fixed names before the first event; a name that is taken is refused.

## Main definitions

* `Metric`: the metrics, with their names, kinds and descriptions.
* `fnv1a`: the hash by which names and keys are told apart.
* `Meters`: what keeps a value of each metric for each key, whatever it is.
* `Meters.observe`: what an event does to the values.
* `Metrics`: the meters in use. They tell keys apart by `Metrics.fingerprint`.
* `Registrar`: what metrics are registered with, whatever it is.
* `Registrar.enrol`: registers all metrics, in order, up to the first one that is refused.
* `Registry`: the registrar in use, the names that are taken. It tells names apart by `Registry.fingerprint`.
-/

namespace Admission

-- Powers of natural numbers are the core library's, whatever else is in scope.
attribute [local instance (high)] instPowNat

/-- What is measured for each key. -/
inductive Metric
  | grants
  | allowed
  | denied
  | previews
  | clears
  | remaining
  deriving DecidableEq, Repr

namespace Metric

/-- All metrics, in the order in which they are registered. -/
def all : List Metric := [.grants, .allowed, .denied, .previews, .clears, .remaining]

/-- The name that the metric is registered under. -/
def name : Metric → String
  | .grants => "throttle_grant_total"
  | .allowed => "throttle_grant_allowed_total"
  | .denied => "throttle_grant_denied_total"
  | .previews => "throttle_preview_total"
  | .clears => "throttle_clear_total"
  | .remaining => "throttle_remaining_tokens"

/-- What the metric measures. -/
def help : Metric → String
  | .grants => "Grant calls"
  | .allowed => "Admitted grants"
  | .denied => "Denied grants"
  | .previews => "Preview calls"
  | .clears => "Clear calls"
  | .remaining => "Whole credits left after the last grant or preview"

/-- Whether the metric can go down. -/
def isGauge : Metric → Bool
  | .remaining => true
  | _ => false

theorem mem_all (metric : Metric) : metric ∈ all := by cases metric <;> decide

end Metric

/-- The largest value of a gauge. -/
def gaugeMax : Nat := 2 ^ (63 : Nat) - 1

/-! ### Hashes -/

/-- Takes a byte into a hash. -/
def fnvAbsorb (hash : UInt64) (byte : UInt8) : UInt64 := (hash ^^^ byte.toUInt64) * 0x100000001b3

/-- The 64-bit FNV-1a hash of some bytes. -/
def fnv1a (bytes : List UInt8) : UInt64 := bytes.foldl fnvAbsorb 0xcbf29ce484222325

/-! ### Meters -/

/-- What keeps values of the metrics, each for a key. -/
class Meters (σ : Type) (φ : outParam Type) where
  /-- What tells keys apart. -/
  fingerprint : String → φ
  /-- No values. -/
  empty : σ
  /-- The value of a metric for a key, if it was ever counted up or set. -/
  value? : σ → Metric → String → Option Nat
  /-- Counts one more. -/
  count : σ → Metric → String → σ
  /-- Sets a value. -/
  set : σ → Metric → String → Nat → σ

namespace Meters

variable {σ φ : Type} [Meters σ φ]

/-- Sets the credits that a key has left. -/
def setRemaining (m : σ) (key : String) (remaining : UInt64) : σ :=
  set m .remaining key (min remaining.toNat gaugeMax)

/-- Takes an event into account. -/
def observe (m : σ) : Event → σ
  | .grant key allowed remaining =>
    setRemaining (count (count m .grants key) (if allowed then .allowed else .denied) key) key
      remaining
  | .preview key remaining => setRemaining (count m .previews key) key remaining
  | .clear key => set (count m .clears key) .remaining key 0

end Meters

/-! ### Samples -/

/-- The value of one metric for one key. -/
structure Sample where
  metric : Metric
  key : String
  value : Nat
  deriving DecidableEq, Repr

/-- The samples of all metrics, one for each metric and key that an event has touched. Keys with one fingerprint
share a sample. -/
structure Metrics where
  samples : List Sample
  deriving DecidableEq, Repr

namespace Metrics

/-- No samples. -/
def empty : Metrics := ⟨[]⟩

/-- The hash of the bytes of a key. -/
def fingerprint (key : String) : UInt64 := fnv1a key.toUTF8.data.toList

/-- The sample of a metric for a key. -/
def value? (m : Metrics) (metric : Metric) (key : String) : Option Nat :=
  (m.samples.find? fun s => s.metric = metric ∧ fingerprint s.key = fingerprint key).map (·.value)

/-- Changes one sample, which starts at zero. -/
def update (m : Metrics) (metric : Metric) (key : String) (change : Nat → Nat) : Metrics :=
  ⟨go m.samples⟩
where
  go : List Sample → List Sample
    | [] => [{ metric, key, value := change 0 }]
    | s :: rest =>
      if s.metric = metric ∧ fingerprint s.key = fingerprint key then { s with value := change s.value } :: rest
      else s :: go rest

/-- Counts one more. -/
def count (m : Metrics) (metric : Metric) (key : String) : Metrics :=
  m.update metric key (· + 1)

instance : Meters Metrics UInt64 where
  fingerprint := fingerprint
  empty := empty
  value? := value?
  count := count
  set m metric key value := m.update metric key fun _ => value

/-- Takes an event into account. -/
def observe (m : Metrics) (event : Event) : Metrics := Meters.observe m event

theorem value?_update_self (m : Metrics) (metric : Metric) (key : String) (change : Nat → Nat) :
    (m.update metric key change).value? metric key =
      some (change ((m.value? metric key).getD 0)) := by
  suffices h : ∀ samples : List Sample,
      ((update.go metric key change samples).find?
        fun s => s.metric = metric ∧ fingerprint s.key = fingerprint key).map (·.value) =
      some (change (((samples.find? fun s =>
        s.metric = metric ∧ fingerprint s.key = fingerprint key).map (·.value)).getD 0)) from h m.samples
  intro samples
  induction samples with
  | nil => simp [update.go]
  | cons s rest ih =>
    by_cases hs : s.metric = metric ∧ fingerprint s.key = fingerprint key
    · simp [update.go, hs]
    · simp only [update.go, hs, if_false, List.find?_cons, decide_false]
      exact ih

theorem value?_update_of_ne (m : Metrics) {metric metric' : Metric} {key key' : String}
    (change : Nat → Nat) (h : ¬ (metric' = metric ∧ fingerprint key' = fingerprint key)) :
    (m.update metric key change).value? metric' key' = m.value? metric' key' := by
  suffices go : ∀ samples : List Sample,
      (update.go metric key change samples).find?
        (fun s => s.metric = metric' ∧ fingerprint s.key = fingerprint key') =
      samples.find? (fun s => s.metric = metric' ∧ fingerprint s.key = fingerprint key') by
    simp only [value?, update, go]
  intro samples
  induction samples with
  | nil =>
    have : ¬ (metric = metric' ∧ fingerprint key = fingerprint key') := fun e => h ⟨e.1.symm, e.2.symm⟩
    simp [update.go, this]
  | cons s rest ih =>
    by_cases hs : s.metric = metric ∧ fingerprint s.key = fingerprint key
    · have other : ¬ (s.metric = metric' ∧ fingerprint s.key = fingerprint key') := fun e =>
        h ⟨e.1.symm.trans hs.1, e.2.symm.trans hs.2⟩
      simp only [update.go, if_pos hs, List.find?_cons, decide_eq_false other]
    · simp only [update.go, hs, if_false, List.find?_cons]
      rw [ih]

/-! ### Reading the samples -/

/-- Samples are read by name, and those of one name by key, in the order of their bytes. -/
def readsBefore (a b : Sample) : Bool :=
  if a.metric.name = b.metric.name then decide (a.key ≤ b.key)
  else decide (a.metric.name ≤ b.metric.name)

/-- The samples in the order in which they are read. -/
def reading (m : Metrics) : List Sample := m.samples.mergeSort readsBefore

end Metrics

/-- What the reader of a sample sees: the value as a double. -/
def Sample.shown (s : Sample) : Nat := (Binary64.ofNat s.value).floorClamped.toNat

/-! ### Registration -/

/-- What metrics are registered with, whatever it is. -/
class Registrar (ρ : Type) (ε : outParam Type) where
  /-- The names that something is registered under. -/
  names : ρ → List String
  /-- What tells names apart. -/
  fingerprint : String → UInt64
  /-- Registers a metric, or refuses it for some cause. -/
  register : ρ → Metric → ρ × Except ε Unit

namespace Registrar

variable {ρ ε : Type} [Registrar ρ ε]

/-- Registers metrics in order, up to the first one that is refused. What was registered before that one
stays registered. -/
def registerAll (r : ρ) : List Metric → ρ × Except ε Unit
  | [] => (r, .ok ())
  | metric :: rest =>
    match register r metric with
    | (r, .ok ()) => registerAll r rest
    | (r, .error cause) => (r, .error cause)

/-- Registers all metrics. -/
def enrol (r : ρ) : ρ × Except ε Unit := registerAll r Metric.all

end Registrar

/-- The names that are taken, in the order in which they were. -/
structure Registry where
  names : List String
  deriving DecidableEq, Repr

namespace Registry

/-- Why a metric is refused. -/
inductive Refusal
  /-- Something with this fingerprint is registered. -/
  | alreadyRegistered
  deriving DecidableEq, Repr

/-- The hash of the bytes of a name, closed by a byte that no text contains. -/
def fingerprint (name : String) : UInt64 := fnv1a (name.toUTF8.data.toList ++ [0xff])

instance : Registrar Registry Refusal where
  names := names
  fingerprint := fingerprint
  register r metric :=
    if r.names.any (fingerprint · = fingerprint metric.name) then (r, .error .alreadyRegistered)
    else (⟨r.names ++ [metric.name]⟩, .ok ())

/-- Takes the names of all metrics; fails on a name that is taken already. -/
def enrol (r : Registry) : Registry × Bool :=
  let (after, outcome) := Registrar.enrol r
  (after, outcome.isOk)

end Registry

end Admission
