import Admission.Time.Duration

/-!
# Quotas

A quota grants `limit` credits per `interval`, with `burst` as the most that one key can hold ready
(or, for a leaky bucket, the most that one key can fill). A quota that exists has a nonzero limit and
a nonzero interval, so its rate is a positive number.
-/

namespace Admission

/-- A validated rate: `limit` credits per `interval`, at most `burst` at once. -/
structure Quota where
  limit : UInt64
  interval : Duration
  burst : UInt64
  limit_ne_zero : limit ≠ 0
  interval_ne_zero : interval ≠ Duration.zero
  deriving DecidableEq

/-- Why a quota is refused. -/
inductive QuotaError
  | zeroLimit
  | zeroInterval
  deriving DecidableEq, Repr

namespace QuotaError

/-- What the caller is told. -/
def message : QuotaError → String
  | .zeroLimit => "limit must be > 0 (got 0)"
  | .zeroInterval => "interval must be > 0 (got " ++ Duration.zero.text ++ ")"

end QuotaError

namespace Quota

/-- The quota with the given numbers. The limit is looked at before the interval. -/
def make (limit : UInt64) (interval : Duration) (burst : UInt64) : Except QuotaError Quota :=
  if hl : limit = 0 then .error .zeroLimit
  else if hi : interval = Duration.zero then .error .zeroInterval
  else .ok { limit, interval, burst, limit_ne_zero := hl, interval_ne_zero := hi }

/-- Credits per second. -/
def rate (q : Quota) : Binary64 := Binary64.ofNat q.limit.toNat / q.interval.seconds

/-- The burst as a double. -/
def ceiling (q : Quota) : Binary64 := Binary64.ofNat q.burst.toNat

end Quota

end Admission
