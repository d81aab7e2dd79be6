import Admission.Guard.Error
import Admission.Limiter.Operation

/-!
# Guarded requests

A guarded request reaches the service behind only if the limiter allows it. A credit that was spent on a
request is not given back when the service fails.

## Main definitions

* `Request`: a request with the key it is charged to and what the service does with it.
* `Request.conclude`: what becomes of a request once the limiter has ended.
-/

namespace Admission

/-- What a service does with a request. -/
inductive Conduct
  | serves
  /-- It fails to become ready. -/
  | unready
  /-- It takes the request and fails. -/
  | fails
  deriving DecidableEq, Repr

/-- A request to a guarded service. -/
structure Request where
  /-- The key that the request is charged to. -/
  key : String
  body : String
  conduct : Conduct
  deriving DecidableEq, Repr

namespace Request

/-- Why a service that is not ready gets no request. -/
def unreadyError : GuardError := .inner "inner not ready"

/-- What the service answers to a request that reaches it. -/
def serve (r : Request) : Except GuardError String :=
  match r.conduct with
  | .serves => .ok ("echo " ++ r.body)
  | .fails => .error (.inner ("inner failed on " ++ r.body))
  | .unready => .error unreadyError

/-- The decision that denies the request, if one does. -/
def denial? (answer : Answer) : Option Decision :=
  answer.decision?.filter fun d => !d.allowed

/-- What becomes of a request once the limiter has ended, and whether it reached the service. -/
def conclude (r : Request) : Except LimiterError Answer → Except GuardError String × Bool
  | .error error => (.error (.limiter error), false)
  | .ok answer =>
    match denial? answer with
    | some decision => (.error (.denied decision), false)
    | none => (r.serve, true)

end Request

end Admission
