import Admission.Proofs.Sink.Worker

/-!
# What the metrics say

Meters that keep what they are told say exactly how many events of each kind they were told of, and what
the last event about a key left it with. It makes no difference who told them which event.

## Main definitions

* `LawfulMeters`: meters that keep what they are told.
* `Event.counters`, `Event.left`: what an event counts for, and what it says is left.
* `Meters.Distinct`: a key that meters can tell from those of all events that are not about it.
* `Meters.Exact`: what meters say about a key after some events.

## Main results

* `Meters.value?_observe`, `Meters.value?_observe_of_ne`: what meters say after one event more.
* `Meters.Told.foldl`: any number of events keep the meters exact.
* `Meters.exact_about_every_key`: what meters say about every key.
-/

namespace Admission

/-- Meters that keep what they are told, as long as the counts fit into words and the gauges are not set too
high: one metric changes at a time, for the keys with one fingerprint, and counting starts at zero. -/
class LawfulMeters (σ : Type) {φ : outParam Type} [Meters σ φ] : Prop where
  value?_empty (metric : Metric) (key : String) : Meters.value? (Meters.empty : σ) metric key = none
  value?_count (m : σ) {metric : Metric} {key : String} (counter : metric.isGauge = false)
    (room : (Meters.value? m metric key).getD 0 + 1 < UInt64.size) :
    Meters.value? (Meters.count m metric key) metric key = some ((Meters.value? m metric key).getD 0 + 1)
  value?_count_of_ne (m : σ) {metric other : Metric} {key key' : String}
    (apart : ¬ (other = metric ∧ Meters.fingerprint σ key' = Meters.fingerprint σ key)) :
    Meters.value? (Meters.count m metric key) other key' = Meters.value? m other key'
  value?_set (m : σ) {metric : Metric} {key : String} {value : Nat} (gauge : metric.isGauge = true)
    (low : value ≤ gaugeMax) :
    Meters.value? (Meters.set m metric key value) metric key = some value
  value?_set_of_ne (m : σ) {metric other : Metric} {key key' : String} {value : Nat}
    (apart : ¬ (other = metric ∧ Meters.fingerprint σ key' = Meters.fingerprint σ key)) :
    Meters.value? (Meters.set m metric key value) other key' = Meters.value? m other key'

instance : LawfulMeters Metrics where
  value?_empty _ _ := rfl
  value?_count m _ _ _ _ := m.value?_update_self ..
  value?_count_of_ne m _ _ _ _ apart := m.value?_update_of_ne _ apart
  value?_set m _ _ _ _ _ := m.value?_update_self ..
  value?_set_of_ne m _ _ _ _ _ apart := m.value?_update_of_ne _ apart

namespace Event

/-- Whether a request was admitted, where the event is about one that was charged. -/
def verdict? : Event → Option Bool
  | .grant _ allowed _ => some allowed
  | .preview .. | .clear _ => none

/-- What the event says its key has left, as far as a gauge goes. -/
def left : Event → Nat
  | .grant _ _ remaining | .preview _ remaining => min remaining.toNat gaugeMax
  | .clear _ => 0

/-- The metrics that the event counts for. -/
def counters : Event → List Metric
  | .grant _ allowed _ => [.grants, if allowed then .allowed else .denied]
  | .preview .. => [.previews]
  | .clear _ => [.clears]

/-- The metrics that the event changes. -/
def touched (event : Event) : List Metric := event.counters ++ [.remaining]

variable (event : Event)

theorem nodup_counters : event.counters.Nodup := by
  cases event with
  | grant key allowed remaining => cases allowed <;> simp [counters]
  | preview key remaining => simp [counters]
  | clear key => simp [counters]

theorem isGauge_of_mem_counters {metric : Metric} (counted : metric ∈ event.counters) :
    metric.isGauge = false := by
  cases metric with
  | remaining =>
    cases event with
    | grant key allowed remaining => cases allowed <;> simp [counters] at counted
    | preview key remaining => simp [counters] at counted
    | clear key => simp [counters] at counted
  | grants | allowed | denied | previews | clears => rfl

theorem left_le : event.left ≤ gaugeMax := by
  cases event with
  | grant key allowed remaining => exact Nat.min_le_right ..
  | preview key remaining => exact Nat.min_le_right ..
  | clear key => exact Nat.zero_le _

end Event

/-- Whether an event is of the kind that a metric counts. -/
def Metric.counts (metric : Metric) (event : Event) : Bool :=
  match metric with
  | .grants => event.operation = "grant"
  | .allowed => event.verdict? = some true
  | .denied => event.verdict? = some false
  | .previews => event.operation = "preview"
  | .clears => event.operation = "clear"
  | .remaining => false

theorem Metric.counts_iff (metric : Metric) (event : Event) :
    metric.counts event = true ↔ metric ∈ event.counters := by
  cases event with
  | grant key allowed remaining =>
    cases allowed <;> cases metric <;>
      simp [Metric.counts, Event.operation, Event.verdict?, Event.counters]
  | preview key remaining =>
    cases metric <;> simp [Metric.counts, Event.operation, Event.verdict?, Event.counters]
  | clear key =>
    cases metric <;> simp [Metric.counts, Event.operation, Event.verdict?, Event.counters]

/-- Whether an event counts for a metric of a key. -/
def Event.countsFor (event : Event) (metric : Metric) (key : String) : Bool :=
  event.key = key ∧ metric.counts event

theorem Event.countsFor_iff (event : Event) (metric : Metric) (key : String) :
    event.countsFor metric key = true ↔ event.key = key ∧ metric ∈ event.counters := by
  rw [countsFor, decide_eq_true_iff, Metric.counts_iff]

namespace Meters

variable {σ φ : Type} [Meters σ φ]

/-! ### One event -/

/-- An event counts for its counters, and then sets what is left. -/
theorem observe_eq (m : σ) (event : Event) :
    observe m event =
      set (event.counters.foldl (fun m c => count m c event.key) m) .remaining event.key event.left := by
  cases event <;> rfl

variable [LawfulMeters σ]

/-- Counting several metrics of a key, each once. -/
theorem value?_foldl_count {counters : List Metric} (distinct : counters.Nodup)
    (ungauged : ∀ c ∈ counters, c.isGauge = false) (m : σ) (key : String)
    (room : ∀ c ∈ counters, (value? m c key).getD 0 + 1 < UInt64.size) (metric : Metric) :
    value? (counters.foldl (fun m c => count m c key) m) metric key =
      if metric ∈ counters then some ((value? m metric key).getD 0 + 1) else value? m metric key := by
  induction counters generalizing m with
  | nil => simp
  | cons c later ih =>
    obtain ⟨apart, distinct⟩ := List.nodup_cons.1 distinct
    obtain ⟨counter, ungauged⟩ := List.forall_mem_cons.1 ungauged
    obtain ⟨space, room⟩ := List.forall_mem_cons.1 room
    have other (d : Metric) (ne : d ≠ c) : value? (count m c key) d key = value? m d key :=
      LawfulMeters.value?_count_of_ne m fun ⟨eq, _⟩ => ne eq
    -- What is counted later has not been changed yet.
    have same (d : Metric) (among : d ∈ later) : value? (count m c key) d key = value? m d key :=
      other d fun eq => apart (eq ▸ among)
    rw [List.foldl_cons, ih distinct ungauged _ fun d among => by rw [same d among]; exact room d among]
    by_cases among : metric ∈ later
    · rw [if_pos among, if_pos (List.mem_cons_of_mem c among), same metric among]
    · by_cases here : metric = c
      · subst here
        rw [if_neg among, if_pos List.mem_cons_self]
        exact LawfulMeters.value?_count m counter space
      · rw [if_neg among, if_neg fun inside => (List.mem_cons.1 inside).elim here among, other metric here]

/-- Counting the metrics of a key says nothing of one with another fingerprint. -/
theorem value?_foldl_count_of_ne (counters : List Metric) (m : σ) (metric : Metric) {key key' : String}
    (other : fingerprint σ key' ≠ fingerprint σ key) :
    value? (counters.foldl (fun m c => count m c key) m) metric key' = value? m metric key' := by
  induction counters generalizing m with
  | nil => rfl
  | cons c later ih =>
    rw [List.foldl_cons, ih]
    exact LawfulMeters.value?_count_of_ne m fun ⟨_, eq⟩ => other eq

/-- What meters say about the key of an event after it. -/
theorem value?_observe (m : σ) (event : Event)
    (room : ∀ c ∈ event.counters, (value? m c event.key).getD 0 + 1 < UInt64.size) (metric : Metric) :
    value? (observe m event) metric event.key =
      if metric ∈ event.counters then some ((value? m metric event.key).getD 0 + 1)
      else if metric = .remaining then some event.left
      else value? m metric event.key := by
  have counted := value?_foldl_count event.nodup_counters (fun _ => event.isGauge_of_mem_counters) m
    event.key room metric
  rw [observe_eq]
  by_cases gauge : metric = .remaining
  · subst gauge
    have uncounted : .remaining ∉ event.counters := fun among => by
      cases event.isGauge_of_mem_counters among
    rw [if_neg uncounted, if_pos rfl]
    exact LawfulMeters.value?_set _ rfl event.left_le
  · rw [LawfulMeters.value?_set_of_ne _ fun ⟨eq, _⟩ => gauge eq, counted, if_neg gauge]

/-- An event about a key with another fingerprint changes nothing. -/
theorem value?_observe_of_ne (m : σ) {event : Event} (metric : Metric) {key : String}
    (other : fingerprint σ event.key ≠ fingerprint σ key) :
    value? (observe m event) metric key = value? m metric key := by
  rw [observe_eq, LawfulMeters.value?_set_of_ne _ fun ⟨_, eq⟩ => other eq.symm]
  exact value?_foldl_count_of_ne event.counters m metric other.symm

/-! ### Any number of events -/

/-- Counts start with the first event that is counted. -/
def tally : Nat → Option Nat
  | 0 => none
  | n + 1 => some (n + 1)

theorem getD_tally (n : Nat) : (tally n).getD 0 = n := by cases n <;> rfl

theorem isSome_tally_iff {n : Nat} : (tally n).isSome = true ↔ 0 < n := by cases n <;> simp [tally]

/-- What meters say about a key that were told of some events, and of nothing else. -/
structure Told (events : List Event) (m : σ) (key : String) : Prop where
  counter : ∀ metric : Metric, metric.isGauge = false →
    value? m metric key = tally (events.countP (·.countsFor metric key))
  gauge : value? m .remaining key = (events.filter (·.key = key)).getLast?.map Event.left

theorem told_empty (key : String) : Told [] (empty : σ) key where
  counter metric _ := LawfulMeters.value?_empty metric key
  gauge := LawfulMeters.value?_empty .remaining key

variable (σ) in
/-- The meters can tell the key from those of all events that are not about it. -/
def Distinct (events : List Event) (key : String) : Prop :=
  ∀ event ∈ events, fingerprint σ event.key = fingerprint σ key → event.key = key

variable {events : List Event} {m : σ} {key : String}

/-- An event about a key keeps the meters exact about it, as long as there are not too many. -/
theorem Told.observe_self (event : Event) (told : Told events m event.key)
    (few : events.length + 1 < UInt64.size) : Told (events ++ [event]) (observe m event) event.key := by
  have room : ∀ c ∈ event.counters, (value? m c event.key).getD 0 + 1 < UInt64.size := by
    intro c among
    have most := List.countP_le_length (p := (·.countsFor c event.key)) (l := events)
    rw [told.counter c (event.isGauge_of_mem_counters among), getD_tally]
    omega
  refine ⟨fun metric ungauged => ?_, ?_⟩
  · have other : metric ≠ .remaining := fun eq => by
      rw [eq] at ungauged
      cases ungauged
    rw [value?_observe m event room, if_neg other, told.counter metric ungauged, getD_tally,
      List.countP_append, List.countP_singleton]
    simp only [event.countsFor_iff, true_and]
    split <;> rfl
  · have uncounted : .remaining ∉ event.counters := fun among => by
      cases event.isGauge_of_mem_counters among
    rw [value?_observe m event room, if_neg uncounted, if_pos rfl, List.filter_append]
    simp

/-- An event about another key leaves the meters exact about this one. -/
theorem Told.observe_of_ne {event : Event} (told : Told events m key) (other : event.key ≠ key)
    (apart : fingerprint σ event.key ≠ fingerprint σ key) :
    Told (events ++ [event]) (observe m event) key := by
  refine ⟨fun metric ungauged => ?_, ?_⟩
  · have uncounted : event.countsFor metric key = false := by
      rw [← Bool.not_eq_true, Event.countsFor_iff]
      exact fun ⟨same, _⟩ => other same
    rw [value?_observe_of_ne m metric apart, told.counter metric ungauged, List.countP_append,
      List.countP_singleton, uncounted]
    rfl
  · rw [value?_observe_of_ne m .remaining apart, told.gauge, List.filter_append]
    simp [other]

theorem Told.foldl (told : Told events m key) (later : List Event) (distinct : Distinct σ later key)
    (few : events.length + later.length < UInt64.size) :
    Told (events ++ later) (later.foldl Meters.observe m) key := by
  induction later generalizing events m with
  | nil => rwa [List.append_nil]
  | cons event later ih =>
    obtain ⟨first, distinct⟩ := List.forall_mem_cons.1 distinct
    rw [List.length_cons] at few
    have next : Told (events ++ [event]) (observe m event) key := by
      by_cases same : event.key = key
      · subst same
        exact told.observe_self event (by omega)
      · exact told.observe_of_ne same (mt first same)
    rw [List.append_cons]
    refine ih next distinct ?_
    rw [List.length_append, List.length_singleton]
    omega

end Meters

namespace Meters

/-! ### What the meters say -/

/-- What meters say about a key after some events. -/
structure Exact {σ φ : Type} [Meters σ φ] (events : List Event) (m : σ) (key : String) : Prop where
  /-- Each counter says how many events of its kind were about the key. -/
  counted : ∀ metric : Metric, metric.isGauge = false →
    (value? m metric key).getD 0 = events.countP (·.countsFor metric key)
  /-- Every request that was charged was admitted or denied. -/
  verdicts : (value? m .grants key).getD 0 = (value? m .allowed key).getD 0 + (value? m .denied key).getD 0
  /-- The gauge says what the last event about the key left. -/
  gauge : value? m .remaining key =
    (events.filter fun event => event.key = key).getLast?.map Event.left
  /-- There is a value exactly if an event has changed it. -/
  present : ∀ metric : Metric,
    (value? m metric key).isSome = true ↔ ∃ event ∈ events, event.key = key ∧ metric ∈ event.touched

variable {σ φ : Type} [Meters σ φ] {events : List Event} {m : σ} {key : String}

/-- As many requests were charged as were admitted and denied. -/
theorem countP_grants (events : List Event) (key : String) :
    events.countP (·.countsFor .grants key) =
      events.countP (·.countsFor .allowed key) + events.countP (·.countsFor .denied key) := by
  induction events with
  | nil => rfl
  | cons event later ih =>
    have split : (if event.countsFor .grants key then 1 else 0) =
        (if event.countsFor .allowed key then 1 else 0) + if event.countsFor .denied key then 1 else 0 := by
      rcases event with ⟨_, _ | _, _⟩ | _ | _ <;>
        simp [Event.countsFor, Metric.counts, Event.operation, Event.verdict?]
    simp only [List.countP_cons]
    omega

theorem Told.exact (told : Told events m key) : Exact events m key where
  counted metric ungauged := by
    rw [told.counter metric ungauged, getD_tally]
  verdicts := by
    rw [told.counter .grants rfl, told.counter .allowed rfl, told.counter .denied rfl]
    simp only [getD_tally]
    exact countP_grants events key
  gauge := told.gauge
  present metric := by
    cases gauge : metric.isGauge with
    | false =>
      have only : metric ≠ .remaining := fun eq => by
        rw [eq] at gauge
        cases gauge
      rw [told.counter metric gauge, isSome_tally_iff, List.countP_pos_iff]
      simp [Event.countsFor_iff, Event.touched, only]
    | true =>
      have only : metric = .remaining := by
        cases metric <;> first | rfl | cases gauge
      subst only
      rw [told.gauge, Option.isSome_map, List.getLast?_isSome]
      simp [Event.touched, List.filter_eq_nil_iff]

end Meters

namespace Sink

/-- Whatever happens to a counting sink, its meters are told of the events that it is offered. -/
theorem acts_metrics (m : Metrics) (actions : List Action) :
    actions.foldl act (.metrics m) = .metrics ((actions.filterMap Action.event?).foldl Metrics.observe m) := by
  induction actions generalizing m with
  | nil => rfl
  | cons action later ih =>
    cases action with
    | offer now left event => exact ih (m.observe event)
    | turn now allowance target => exact ih m

end Sink

/-- Meters that keep what they are told are exact about every key that they can tell from those of all other
events, whoever told them of which event, and an event about a key with another fingerprint changes nothing. A
counting sink is such meters, told of what the sink is offered. -/
theorem Meters.exact_about_every_key (σ : Type) {φ : Type} [Meters σ φ] [LawfulMeters σ] (events : List Event)
    (few : events.length < UInt64.size) :
    (∀ key, Distinct σ events key → Exact events (events.foldl observe (empty : σ)) key) ∧
    (∀ (m : σ) (event : Event) (metric : Metric) (key : String),
      fingerprint σ event.key ≠ fingerprint σ key →
      value? (observe m event) metric key = value? m metric key) ∧
    ∀ actions : List Sink.Action, actions.foldl Sink.act .counting =
      .metrics ((actions.filterMap Sink.Action.event?).foldl observe empty) := by
  refine ⟨fun key distinct => ?_, fun m _ metric _ => value?_observe_of_ne m metric, Sink.acts_metrics .empty⟩
  have told : Told events (events.foldl observe (empty : σ)) key :=
    (told_empty key).foldl events distinct (by rwa [List.length_nil, Nat.zero_add])
  exact told.exact

/-- Two requests for one key, with more left than a gauge can say, and a look at another. -/
def Event.plenty : List Event :=
  [.grant "a" true 7, .grant "a" false 18446744073709551615, .preview "b" 3]

/-- The metrics in use count one request admitted and one denied, and the gauge stops at its largest value. -/
theorem Meters.exact_beyond_gauge :
    Event.plenty.length < UInt64.size ∧
      value? (Event.plenty.foldl observe (empty : Metrics)) .denied "a" = some 1 ∧
      value? (Event.plenty.foldl observe (empty : Metrics)) .remaining "a" = some gaugeMax ∧
      value? (Event.plenty.foldl observe (empty : Metrics)) .clears "a" = none ∧
      ∀ key ∈ ["a", "b", "c"], Distinct Metrics Event.plenty key ∧
        Exact Event.plenty (Event.plenty.foldl observe (empty : Metrics)) key := by
  have distinct : ∀ key ∈ ["a", "b", "c"], ∀ event ∈ Event.plenty,
      Metrics.fingerprint event.key = Metrics.fingerprint key → event.key = key := by decide +kernel
  exact ⟨by decide, by decide +kernel, by decide +kernel, by decide +kernel, fun key among =>
    ⟨distinct key among, (exact_about_every_key Metrics Event.plenty (by decide)).1 key (distinct key among)⟩⟩

end Admission
