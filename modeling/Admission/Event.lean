/-!
# Events

A limiter reports one event per completed operation. An event carries what the operation already
computed, so whoever receives it cannot change the decision.
-/

namespace Admission

/-- What a limiter reports about one completed operation on a key. -/
inductive Event
  | grant (key : String) (allowed : Bool) (remaining : UInt64)
  | preview (key : String) (remaining : UInt64)
  | clear (key : String)
  deriving DecidableEq, Repr

namespace Event

/-- The key that the event is about. -/
def key : Event → String
  | .grant key _ _ | .preview key _ | .clear key => key

/-- A short label of the operation. -/
def operation : Event → String
  | .grant .. => "grant"
  | .preview .. => "preview"
  | .clear _ => "clear"

/-- The event on one line. -/
def text : Event → String
  | .grant key allowed remaining =>
    "Grant(key=" ++ key ++ (if allowed then ", allowed" else ", denied") ++
      ", remaining=" ++ toString remaining.toNat ++ ")"
  | .preview key remaining =>
    "Preview(key=" ++ key ++ ", remaining=" ++ toString remaining.toNat ++ ")"
  | .clear key => "Clear(key=" ++ key ++ ")"

end Event

end Admission
