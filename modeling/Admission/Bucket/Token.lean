import Admission.Quota
import Admission.Standing

/-!
# Token buckets

Credits accrue at the quota's rate up to the burst, and an admitted request spends one.
-/

namespace Admission.TokenBucket

variable (quota : Quota) (standing : Standing) (now : Instant)

/-- The credits ready now. A clock that ran backwards adds none. -/
def available : Binary64 :=
  (standing.credits + (standing.lastUpdate.since now).seconds * quota.rate).min quota.ceiling

/-- Whether one credit is ready, up to the slack. -/
def admits : Bool := 1 ≤ available quota standing now + creditSlack

/-- When the bucket will be full again. -/
def resetTime : Instant := now.offset ((quota.ceiling - available quota standing now) / quota.rate)

/-- How long until one credit is ready. -/
def retryAfter : Duration :=
  if admits quota standing now then Duration.zero
  else Duration.covering ((1 - available quota standing now) / quota.rate)

/-- The credits left after the request: one fewer when it is admitted. -/
def left : Binary64 :=
  if admits quota standing now then available quota standing now - 1
  else available quota standing now

/-- Decides on one request, and the standing to keep. -/
def decide : Decision × Standing :=
  ({ allowed := admits quota standing now
     remaining := (left quota standing now).floorClamped
     resetTime := resetTime quota standing now
     retryAfter := retryAfter quota standing now },
   { standing with credits := left quota standing now, lastUpdate := now })

/-- What `decide` would decide, with nothing spent. -/
def preview : Decision where
  allowed := admits quota standing now
  remaining := (available quota standing now).floorClamped
  resetTime := resetTime quota standing now
  retryAfter := retryAfter quota standing now

/-- A key starts with a full bucket. -/
def fresh : Standing := .fresh quota.ceiling now

end Admission.TokenBucket
