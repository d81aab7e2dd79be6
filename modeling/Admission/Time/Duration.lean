import Admission.Binary64.Arithmetic

/-!
# Durations

A duration is a whole number of nanoseconds whose whole seconds fit 64 unsigned bits.

## Main definitions

* `Duration`: the durations, with `Duration.max` the longest.
* `Duration.seconds`: the duration in seconds as a double, rounded twice: the fraction by its division
  and the sum.
* `Duration.nearest?`: the duration nearest to a double number of seconds.
* `Duration.covering`: the duration to wait so that the given number of seconds has passed.
* `Duration.text`: the duration in the largest unit that leaves a whole part.
-/

namespace Admission

-- Powers of natural numbers are the core library's, whatever else is in scope.
attribute [local instance (high)] instPowNat

/-- Nanoseconds in a second. -/
def nanosPerSecond : Nat := 1000000000

/-- A span of time in nanoseconds. -/
structure Duration where
  nanos : Nat
  nanos_lt : nanos < 2 ^ (64 : Nat) * nanosPerSecond
  deriving DecidableEq

namespace Duration

/-- No time at all. -/
def zero : Duration := ⟨0, by decide⟩

/-- The longest duration. -/
def max : Duration := ⟨2 ^ (64 : Nat) * nanosPerSecond - 1, by decide⟩

instance : Inhabited Duration := ⟨zero⟩

/-- The duration of so many nanoseconds, when it is not too long. -/
def ofNanos? (nanos : Nat) : Option Duration :=
  if h : nanos < 2 ^ (64 : Nat) * nanosPerSecond then some ⟨nanos, h⟩ else none

/-- The duration of so many nanoseconds, or the longest one. -/
def ofNanosClamped (nanos : Nat) : Duration := (ofNanos? nanos).getD max

/-- The whole seconds of a duration. -/
def wholeSeconds (d : Duration) : Nat := d.nanos / nanosPerSecond

/-- The nanoseconds past the whole seconds. -/
def subsecNanos (d : Duration) : Nat := d.nanos % nanosPerSecond

/-- The seconds of a duration, rounded up to whole ones. -/
def secondsRoundedUp (d : Duration) : Nat :=
  Nat.min (if d.subsecNanos = 0 then d.wholeSeconds else d.wholeSeconds + 1) (2 ^ (64 : Nat) - 1)

/-- The duration in seconds as a double: whole seconds plus the nanoseconds over a billion. -/
def seconds (d : Duration) : Binary64 :=
  Binary64.ofNat d.wholeSeconds + Binary64.ofNat d.subsecNanos / Binary64.ofNat nanosPerSecond

/-- The duration nearest to a number of seconds, a tie going to the even nanosecond. There is none
for negative values, NaN and 2⁶⁴ seconds or more. -/
def nearest? : Binary64 → Option Duration
  | .finite false units _ =>
    if units < 2 ^ (64 : Nat) * Binary64.unitsInOne then
      ofNanos? (roundDiv (units * nanosPerSecond) Binary64.unitsInOne)
    else none
  | _ => none

/-- A duration that covers a computed number of seconds: rounded to the nearest nanosecond, and one
nanosecond more if that fell short. NaN and everything up to zero give no time, and everything too
long gives the longest duration. -/
def covering (secs : Binary64) : Duration :=
  if secs.isNaN ∨ secs ≤ 0 then zero
  else
    let d := (nearest? secs).getD max
    if d.seconds < secs then ofNanosClamped (d.nanos + 1) else d

/-! ### Text -/

/-- The fraction `part / 10 ^ places` as a point and digits, without trailing zeros; nothing for a
zero fraction. -/
def fractionText (part places : Nat) : String :=
  let digits := (Nat.toDigits 10 part).leftpad places '0'
  let kept := (digits.reverse.dropWhile (· = '0')).reverse
  if kept.isEmpty then "" else "." ++ String.ofList kept

/-- The duration in seconds, milliseconds, microseconds or nanoseconds, whichever is the largest unit
with a nonzero whole part, with the exact fraction. -/
def text (d : Duration) : String :=
  if nanosPerSecond ≤ d.nanos then render 9 "s"
  else if 1000000 ≤ d.nanos then render 6 "ms"
  else if 1000 ≤ d.nanos then render 3 "µs"
  else render 0 "ns"
where
  render (places : Nat) (unit : String) : String :=
    toString (d.nanos / 10 ^ places) ++ fractionText (d.nanos % 10 ^ places) places ++ unit

end Duration

end Admission
