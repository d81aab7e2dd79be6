import Admission.Time.Instant

/-!
# Clocks

A clock gives the instants that decisions are made at. A manual clock stands still until it is moved; a
fixed reading stands in for a clock that nothing here can move.
-/

namespace Admission

/-- A source of instants. -/
inductive Clock
  /-- A clock that is moved by hand. It keeps its reading when it cannot be moved as far as it should,
  and remembers that. -/
  | manual (now : Instant) (overrun : Bool)
  /-- A clock outside, of which one reading is known. -/
  | outside (reading : Instant)
  deriving DecidableEq

namespace Clock

/-- Where a manual clock starts unless told otherwise, 1 700 000 000 s after the epoch. -/
def start : Instant := ⟨1700000000 * nanosPerSecond, by decide, by decide⟩

/-- A manual clock at an instant. -/
def ofInstant (now : Instant) : Clock := .manual now false

/-- A clock outside that is read once, 1 780 000 000 s after the epoch. -/
def wall : Clock := .outside ⟨1780000000 * nanosPerSecond, by decide, by decide⟩

/-- What the clock reads. -/
def now : Clock → Instant
  | .manual now _ => now
  | .outside reading => reading

/-- The clock moved forward, and whether it could be moved that far. -/
def advance (c : Clock) (span : Duration) : Bool × Clock :=
  match c with
  | .manual now overrun =>
    match now.add? span with
    | some later => (true, .manual later overrun)
    | none => (false, .manual now true)
  | .outside reading => (true, .outside reading)

/-- The clock moved to an instant, in either direction. -/
def set (c : Clock) (target : Instant) : Clock :=
  match c with
  | .manual _ overrun => .manual target overrun
  | .outside reading => .outside reading

/-- The clock in words. -/
def text : Clock → String
  | .manual now overrun =>
    "ManualClock \x7b now: Mutex \x7b data: SystemTime \x7b tv_sec: " ++ toString now.unixSeconds ++
      ", tv_nsec: " ++ toString now.subsecNanos ++ " \x7d, poisoned: " ++
      (if overrun then "true" else "false") ++ ", .. \x7d \x7d"
  | .outside _ => "SystemClock"

end Clock

end Admission
