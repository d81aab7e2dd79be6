import Admission.Event
import Admission.Limiter.Scope
import Admission.Sink.Error
import Admission.Store.Error

/-!
# Journal

What the parts of a limiter write down while they work. A record says what happened; its level, where
it comes from, its message and its fields follow from that.

## Main definitions

* `Record`: everything that can be written down.
* `Record.level`, `Record.origin`, `Record.message`, `Record.fields`: how it is written.
-/

namespace Admission

/-- How urgent a record is. -/
inductive Level
  | trace
  | debug
  | info
  | warn
  deriving DecidableEq, Repr

/-- The name of a level. -/
def Level.name : Level → String
  | .trace => "TRACE"
  | .debug => "DEBUG"
  | .info => "INFO"
  | .warn => "WARN"

/-- What a field of a record holds. -/
inductive FieldValue
  | flag (value : Bool)
  | count (value : UInt64)
  | text (value : String)
  deriving DecidableEq, Repr

/-- Something that happened and is written down. -/
inductive Record
  | limiterBuilt (scope : LockScope) (storeTimeout : Option Duration)
  | granted (key : String) (allowed : Bool) (remaining : UInt64)
  | previewed (key : String) (remaining : UInt64)
  | cleared (key : String)
  | storeTimedOut (key : String) (op : StoreOp) (limit : Duration)
  | storeFailed (key : String) (op : StoreOp) (error : StoreError)
  /-- A logging sink got an event. -/
  | eventLogged (event : Event)
  /-- A sink failed while it handled an event, and the event is gone. -/
  | eventDropped (error : SinkError)
  /-- A sink was not done with an event, and there is nothing to finish it in the background. -/
  | eventAbandoned
  | metricsRegistered
  /-- A remote store answered for the first time. -/
  | connected (keyspace : String)
  deriving DecidableEq

namespace Record

/-- How urgent the record is: failures of a store warn, and what only a sink loses is a trace. -/
def level : Record → Level
  | .storeTimedOut .. | .storeFailed .. => .warn
  | .eventLogged _ | .connected _ => .info
  | .limiterBuilt .. | .granted .. | .cleared _ | .metricsRegistered => .debug
  | .previewed .. | .eventDropped _ | .eventAbandoned => .trace

/-- The part that wrote the record. -/
def origin : Record → String
  | .limiterBuilt .. | .granted .. | .previewed .. | .cleared _ | .storeTimedOut ..
  | .storeFailed .. => "throttle::limiter"
  | .eventLogged _ | .eventDropped _ | .eventAbandoned | .metricsRegistered =>
    "throttle::telemetry"
  | .connected _ => "throttle::redis"

/-- The fixed words of the record. -/
def message : Record → String
  | .limiterBuilt .. => "limiter built"
  | .granted .. => "grant"
  | .previewed .. => "preview"
  | .cleared _ => "clear"
  | .storeTimedOut .. => "store call timed out"
  | .storeFailed .. => "store call failed"
  | .eventLogged _ => "throttle_event"
  | .eventDropped _ => "sink dropped event"
  | .eventAbandoned => "no runtime for pending sink; event dropped"
  | .metricsRegistered => "prometheus sink registered"
  | .connected _ => "connected"

/-- An optional duration in words. -/
def optionalText : Option Duration → String
  | none => "None"
  | some d => "Some(" ++ d.text ++ ")"

/-- What the record says in particular, by name. -/
def fields : Record → List (String × FieldValue)
  | .limiterBuilt scope storeTimeout =>
    [("scope", .text scope.text), ("store_timeout", .text (optionalText storeTimeout))]
  | .granted key allowed remaining =>
    [("key", .text key), ("allowed", .flag allowed), ("remaining", .count remaining)]
  | .previewed key remaining => [("key", .text key), ("remaining", .count remaining)]
  | .cleared key => [("key", .text key)]
  | .storeTimedOut key op limit =>
    [("key", .text key), ("op", .text op.name), ("timeout", .text limit.text)]
  | .storeFailed key op error =>
    [("key", .text key), ("op", .text op.name), ("error", .text error.text)]
  | .eventLogged event =>
    [("op", .text event.operation), ("key", .text event.key), ("event", .text event.text)]
  | .eventDropped error => [("error", .text error.message)]
  | .eventAbandoned | .metricsRegistered => []
  | .connected keyspace => [("prefix", .text keyspace)]

end Record

end Admission
