import Admission.Clock
import Admission.Limiter.Error
import Admission.Limiter.Operation
import Admission.Store.Scripted

/-!
# Limiters

A limiter carries out operations on a store: it waits for each store call, as long as it is allowed to,
and ends at the first call that fails or takes too long.

## Main definitions

* `Limiter`: a bucket with the settings that it is used with.
* `Ending`: how an operation ends; `Ending.record` and `Ending.event?` say what is reported of it.
* `Plan.perform`, `Limiter.perform`: an operation on its own, from beginning to end.
-/

namespace Admission

/-- A bucket with the settings that it is used with. -/
structure Limiter where
  bucket : Bucket
  scope : LockScope
  /-- How long each store call may take, unless an operation says otherwise. -/
  storeTimeout : Option Duration
  deriving DecidableEq

/-- How an operation ends. -/
inductive Ending
  | answered (answer : Answer)
  /-- A store call failed or took too long. -/
  | failed (op : StoreOp) (error : LimiterError)
  deriving DecidableEq

namespace Ending

/-- What the caller gets. -/
def result : Ending → Except LimiterError Answer
  | .answered answer => .ok answer
  | .failed _ error => .error error

/-- What is written down about an operation on a key. -/
def record (key : String) : Ending → Record
  | .answered answer => answer.record key
  | .failed op (.store error) => .storeFailed key op error
  | .failed _ (.timeout op limit) => .storeTimedOut key op limit

/-- The event that reports an operation on a key. A failure is not reported. -/
def event? (key : String) : Ending → Option Event
  | .answered answer => some (answer.event key)
  | .failed .. => none

end Ending

/-- An operation that has ended, or waits for an answer that never comes. -/
structure Performed (σ : Type) where
  ending : Option Ending
  store : Scripted σ
  /-- The waits that ended, in order. -/
  waits : List Nat

/-- Carries a plan out on a scripted store, from a moment on. Each call may take up to a limit of its own; one
that is answered at once is not waited for. -/
def Plan.perform {σ : Type} [Store σ] [Timer] (limit : Option Duration) :
    Plan → Nat → Scripted σ → List Nat → Performed σ
  | .finish answer, _, s, waits => ⟨some (.answered answer), s, waits⟩
  | .ask call next, moment, s, waits =>
    let (course, s) := s.begin call
    match course.wait moment limit with
    | .forever => ⟨none, s, waits⟩
    | .gaveUp after limit =>
      ⟨some (.failed call.op (.timeout call.op limit)), s, waits ++ [after]⟩
    | .answered after =>
      let waits := if after = 0 then waits else waits ++ [after]
      match s.finish call course with
      | (.error error, s) => ⟨some (.failed call.op (.store error)), s, waits⟩
      | (.ok value, s) => (next value).perform limit (moment + after) s waits

namespace Limiter

/-- How long each store call of an operation may take: what the operation says, or else the limiter. -/
def limitOf (l : Limiter) (own : Option Duration) : Option Duration := own.or l.storeTimeout

/-- Carries out an operation on its own, at a reading of the clock and from a moment on. -/
def perform {σ : Type} [Store σ] [Timer] (l : Limiter) (op : Operation) (own : Option Duration)
    (now : Instant) (moment : Nat) (s : Scripted σ) : Performed σ :=
  (op.plan l.bucket now).perform (l.limitOf own) moment s []

/-! ### Text -/

/-- The bucket in words; an `Algorithm` names itself twice, because it wraps the bucket. -/
def bucketText (b : Bucket) (wrapped : Bool) : String :=
  let name := match b.algorithm with
    | .tokenBucket => "TokenBucket"
    | .leakyBucket => "LeakyBucket"
  let inner := name ++ " \x7b config: Config \x7b limit: " ++ toString b.quota.limit.toNat ++
    ", interval: " ++ b.quota.interval.text ++ ", burst: " ++ toString b.quota.burst.toNat ++
    " \x7d \x7d"
  if wrapped then name ++ "(" ++ inner ++ ")" else inner

/-- The limiter in words, with the clock that it reads. -/
def text (l : Limiter) (wrapped : Bool) (clock : Clock) : String :=
  "Limiter \x7b strategy: " ++ bucketText l.bucket wrapped ++ ", scope: " ++ l.scope.text ++
    ", store_timeout: " ++ Record.optionalText l.storeTimeout ++ ", clock: " ++ clock.text ++
    ", .. \x7d"

end Limiter

end Admission
