import Admission.Store.Error

/-!
# Failures of a limiter

A limiter fails with its store, and when a store call takes longer than the caller allows. A failure
is never a decision: the caller chooses whether to let the request through.
-/

namespace Admission

/-- Why a limiter gave no decision. -/
inductive LimiterError
  | store (error : StoreError)
  | timeout (op : StoreOp) (limit : Duration)
  deriving DecidableEq

namespace LimiterError

/-- What the caller is told; a store's failure speaks for itself. -/
def message : LimiterError → String
  | .store error => error.message
  | .timeout op limit => "store " ++ op.name ++ " timed out after " ++ limit.text

/-- Whether a store call took too long. -/
def isTimeout : LimiterError → Bool
  | .timeout .. => true
  | .store _ => false

/-- Whether the store failed. -/
def isStore : LimiterError → Bool
  | .store _ => true
  | .timeout .. => false

/-- The store's failure. -/
def storeError? : LimiterError → Option StoreError
  | .store error => some error
  | .timeout .. => none

/-- The call that took too long, and how long it was given. -/
def timeoutDetails? : LimiterError → Option (StoreOp × Duration)
  | .timeout op limit => some (op, limit)
  | .store _ => none

/-- What the failure goes back to, in words. -/
def source? : LimiterError → Option String
  | .store error => error.source?
  | .timeout .. => none

end LimiterError

end Admission
