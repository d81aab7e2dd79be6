import Admission.Bucket.Basic
import Admission.Journal
import Admission.Store.Basic

/-!
# Operations of a limiter

A limiter is asked to grant a request, to preview the decision on one, or to clear a key. An operation
is a plan of store calls, made from one reading of the clock while the lock of its key is held.

## Main definitions

* `Operation`: what a limiter can be asked.
* `Answer`: what it answers, with the event and the record that go with it.
* `Plan`: the store calls of an operation and what becomes of their answers; `Operation.plan`.
* `Plan.runOn`: a plan carried out on a store without delay.
-/

namespace Admission

/-- What a limiter can be asked about a key. -/
inductive Operation
  | grant (key : String)
  | preview (key : String)
  | clear (key : String)
  deriving DecidableEq, Repr

/-- What a limiter answers. -/
inductive Answer
  | granted (decision : Decision)
  | previewed (decision : Decision)
  | cleared
  deriving DecidableEq

namespace Answer

/-- The decision answered, if it was one. -/
def decision? : Answer → Option Decision
  | .granted decision | .previewed decision => some decision
  | .cleared => none

/-- The event that reports the answer. -/
def event (key : String) : Answer → Event
  | .granted decision => .grant key decision.allowed decision.remaining
  | .previewed decision => .preview key decision.remaining
  | .cleared => .clear key

/-- The record of the answer. -/
def record (key : String) : Answer → Record
  | .granted decision => .granted key decision.allowed decision.remaining
  | .previewed decision => .previewed key decision.remaining
  | .cleared => .cleared key

end Answer

/-- The store calls that are to be made, one after the other, each with what comes after its answer. -/
inductive Plan
  | finish (answer : Answer)
  | ask (call : StoreCall) (next : Option Standing → Plan)

namespace Operation

/-- The key that the operation is about. -/
def key : Operation → String
  | .grant key | .preview key | .clear key => key

/-- Whether the operation needs the lock of its key for itself. Previews share it. -/
def isExclusive : Operation → Bool
  | .preview _ => false
  | .grant _ | .clear _ => true

/-- The plan of an operation at a reading of the clock. A key without a standing is decided on as one
never seen before. -/
def plan (b : Bucket) (now : Instant) : Operation → Plan
  | .grant key =>
    .ask (.get key) fun stored =>
      let (decision, next) := b.decide (stored.getD (b.fresh now)) now
      .ask (.set key next) fun _ => .finish (.granted decision)
  | .preview key =>
    .ask (.get key) fun stored =>
      .finish (.previewed (b.preview (stored.getD (b.fresh now)) now))
  | .clear key => .ask (.delete key) fun _ => .finish .cleared

end Operation

namespace Plan

variable {σ : Type} [Store σ]

/-- Carries a plan out on a store that answers at once; the first failure ends it. -/
def runOn : Plan → σ → Except StoreError Answer × σ
  | .finish answer, s => (.ok answer, s)
  | .ask call next, s =>
    match Store.answer call s with
    | (.error error, s) => (.error error, s)
    | (.ok value, s) => (next value).runOn s

end Plan

end Admission
