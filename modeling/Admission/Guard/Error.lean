import Admission.Limiter.Error

/-!
# Guarded services

A guard stands before a service and asks a limiter about every request. A request that is not served
was denied, could not be decided on, or failed in the service itself.
-/

namespace Admission

/-- Why a guarded request was not served. -/
inductive GuardError
  | denied (decision : Decision)
  | limiter (error : LimiterError)
  | inner (text : String)
  deriving DecidableEq

namespace GuardError

/-- What the caller is told; a failure of the service speaks for itself. -/
def message : GuardError → String
  | .denied decision => "rate limited; retry after " ++ decision.retryAfter.text
  | .limiter error => "rate limiter unavailable: " ++ error.message
  | .inner text => text

/-- Whether the limiter denied the request. -/
def isDenied : GuardError → Bool
  | .denied _ => true
  | _ => false

/-- The decision that denied the request. -/
def decision? : GuardError → Option Decision
  | .denied decision => some decision
  | _ => none

/-- What the failure goes back to, in words. -/
def source? : GuardError → Option String
  | .limiter error => some error.message
  | _ => none

end GuardError

end Admission
