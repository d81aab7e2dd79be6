import Admission.Time.Duration

/-!
# Instants

An instant counts nanoseconds from the Unix epoch, in either direction, as far as its whole seconds
fit 64 signed bits. An instant is what clocks read and what stored state is stamped with.

## Main definitions

* `Instant`: the instants.
* `Instant.since`: time elapsed between two instants; none when time ran backwards.
* `Instant.add?`, `Instant.offset`: moving forward, within the representable instants.
-/

namespace Admission

-- Powers of natural numbers are the core library's, whatever else is in scope.
attribute [local instance (high)] instPowNat

/-- Nanoseconds from the epoch to the first instant past the last one, and back to the first one. -/
def Instant.reach : Nat := 2 ^ (63 : Nat) * nanosPerSecond

/-- A point in time, in nanoseconds since the Unix epoch. -/
structure Instant where
  nanos : Int
  le_nanos : -(Instant.reach : Int) ≤ nanos
  nanos_lt : nanos < (Instant.reach : Int)
  deriving DecidableEq

namespace Instant

/-- The Unix epoch. -/
def epoch : Instant := ⟨0, by decide, by decide⟩

instance : Inhabited Instant := ⟨epoch⟩

/-- The instant so many nanoseconds after the epoch, when it is representable. -/
def ofNanos? (nanos : Int) : Option Instant :=
  if h : -(reach : Int) ≤ nanos ∧ nanos < (reach : Int) then
    some ⟨nanos, h.1, h.2⟩
  else none

/-- The time from `earlier` to `later`; zero when `later` comes first. -/
def since (earlier later : Instant) : Duration where
  nanos := (later.nanos - earlier.nanos).toNat
  nanos_lt := by
    have := earlier.le_nanos
    have := later.nanos_lt
    simp only [reach, nanosPerSecond] at *
    omega

/-- The instant a duration later, when it is representable. -/
def add? (t : Instant) (d : Duration) : Option Instant := ofNanos? (t.nanos + d.nanos)

/-- The instant a computed number of seconds later; the instant itself past the last one. -/
def offset (t : Instant) (secs : Binary64) : Instant := (t.add? (Duration.covering secs)).getD t

/-- Whole seconds since the epoch, rounded down. -/
def unixSeconds (t : Instant) : Int := t.nanos / (nanosPerSecond : Int)

/-- The nanoseconds past the whole seconds. -/
def subsecNanos (t : Instant) : Nat := (t.nanos % (nanosPerSecond : Int)).toNat

theorem since_self (t : Instant) : t.since t = Duration.zero := by
  simp [since, Duration.zero]

theorem nanos_ofNanos? {nanos : Int} {t : Instant} (h : ofNanos? nanos = some t) :
    t.nanos = nanos := by
  unfold ofNanos? at h
  split at h
  · cases h
    rfl
  · cases h

theorem le_offset (t : Instant) (secs : Binary64) : t.nanos ≤ (t.offset secs).nanos := by
  unfold offset
  cases h : t.add? (Duration.covering secs) with
  | none => exact Int.le_refl _
  | some u =>
    have same := nanos_ofNanos? h
    simp only [Option.getD_some, same]
    omega

end Instant

end Admission
