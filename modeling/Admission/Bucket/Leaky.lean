import Admission.Quota
import Admission.Standing

/-!
# Leaky buckets

An admitted request pours one unit into the bucket, which drains at the quota's rate. A request is
admitted while one more unit fits under the burst.
-/

namespace Admission.LeakyBucket

variable (quota : Quota) (standing : Standing) (now : Instant)

/-- The fill level now. A clock that ran backwards drains nothing. -/
def level : Binary64 :=
  (standing.credits - (standing.lastUpdate.since now).seconds * quota.rate).max 0

/-- Whether one more unit fits, up to the slack. -/
def admits : Bool := level quota standing now + 1 ≤ quota.ceiling + creditSlack

/-- When the bucket will be empty. -/
def resetTime : Instant := now.offset (level quota standing now / quota.rate)

/-- How long one unit takes to drain; zero when a request is admitted already. -/
def retryAfter : Duration :=
  if admits quota standing now then Duration.zero else Duration.covering (1 / quota.rate)

/-- The level after the request: one unit more when it is admitted. -/
def filled : Binary64 :=
  if admits quota standing now then level quota standing now + 1 else level quota standing now

/-- Decides on one request, and the standing to keep. -/
def decide : Decision × Standing :=
  ({ allowed := admits quota standing now
     remaining := (quota.ceiling - filled quota standing now).floorClamped
     resetTime := resetTime quota standing now
     retryAfter := retryAfter quota standing now },
   { standing with credits := filled quota standing now, lastUpdate := now })

/-- What `decide` would decide, with nothing poured. -/
def preview : Decision where
  allowed := admits quota standing now
  remaining := (quota.ceiling - level quota standing now).floorClamped
  resetTime := resetTime quota standing now
  retryAfter := retryAfter quota standing now

/-- A key starts with an empty bucket. -/
def fresh : Standing := .fresh 0 now

end Admission.LeakyBucket
