import Admission.Time.Duration

/-!
# Timers

Who waits no longer than a limit has a timer of the runtime end the wait. The runtime counts moments and delays in
units of its own; a timer goes by ticks, so that how long it runs also depends on when it is set.

## Main definitions

* `Timer`: how a runtime counts time, and for how long a timer runs.
* `Timer.tick`: how much longer than it is set for a timer runs at most.
* `Timer.units`: how many units there are in a duration.
* `Timer.millis`, `Timer.ticking`: timers with a tick at each millisecond, where moments are milliseconds or
  nanoseconds.
-/

namespace Admission

/-- How a runtime counts time, and its timer, whatever it is. -/
class Timer where
  /-- How many nanoseconds there are in a unit of moments and delays. -/
  unit : Nat
  /-- For how many units a timer runs that is set at a moment for a duration. -/
  runs : Nat → Duration → Nat
  /-- The longest duration that a timer can be set for. -/
  longest : Duration

namespace Timer

/-- Nanoseconds from one tick of a timer to the next. -/
def tick : Nat := 1000000

/-- How many whole units there are in a duration. -/
def units [Timer] (d : Duration) : Nat := d.nanos / unit

/-- Moments are milliseconds, unless something else is said; a timer rings at the first that is not too early. -/
instance millis : Timer where
  unit := tick
  runs _ limit := (limit.nanos + (tick - 1)) / tick
  longest := .max

/-- Moments are nanoseconds; a timer rings at the first whole millisecond that is not too early. -/
@[reducible]
def ticking : Timer where
  unit := 1
  runs moment limit := (moment + limit.nanos + (tick - 1)) / tick * tick - moment
  longest := .max

end Timer

end Admission
