import Admission.Time.Instant

/-!
# Standings and decisions

A *standing* is what a store keeps for one key; a *decision* is what one admission check answers.
-/

namespace Admission

/-- One key's standing. `credits` are the credits ready in a token bucket and the fill level of a
leaky bucket. -/
structure Standing where
  credits : Binary64
  /-- When `credits` was last brought up to date. -/
  lastUpdate : Instant
  /-- When the key was first seen. -/
  created : Instant
  deriving DecidableEq, Inhabited

/-- The standing of a key first seen now. -/
def Standing.fresh (credits : Binary64) (now : Instant) : Standing :=
  { credits, lastUpdate := now, created := now }

/-- The outcome of one admission check. -/
structure Decision where
  allowed : Bool
  /-- Whole credits left. -/
  remaining : UInt64
  /-- When the bucket is expected to be back at rest: full for tokens, empty for a leaky bucket. -/
  resetTime : Instant
  /-- How long to wait before trying again; zero when allowed. -/
  retryAfter : Duration
  deriving DecidableEq, Inhabited

namespace Decision

/-- Response headers for a decision under a quota of `limit`: the reset in whole seconds since the
epoch (zero before it), and for a denial the seconds to wait, rounded up. -/
def headers (d : Decision) (limit : UInt64) : List (String × String) :=
  [("X-RateLimit-Limit", toString limit.toNat),
   ("X-RateLimit-Remaining", toString d.remaining.toNat),
   ("X-RateLimit-Reset", toString d.resetTime.unixSeconds.toNat)] ++
  if d.allowed then [] else [("Retry-After", toString d.retryAfter.secondsRoundedUp)]

end Decision

/-- What one credit may fall short by and still count as one, against rounding in refills. -/
def creditSlack : Binary64 := Binary64.nearest false 1 1000000000

end Admission
