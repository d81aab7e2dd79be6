/-!
# Failures of a sink

A sink that events go to can fail before it takes an event and while it handles one. Neither reaches
the limiter's callers.
-/

namespace Admission

/-- Why a sink did not handle an event. A fan-out passes on the failure of one of its branches. -/
inductive SinkError
  | notReady
  | callFailed
  | branch (error : SinkError)
  deriving DecidableEq, Repr

namespace SinkError

/-- The failure in words, with one lead-in for each fan-out that it came through. -/
def message : SinkError → String
  | .notReady => "sink not ready"
  | .callFailed => "sink call failed"
  | .branch error => "telemetry sink error: " ++ error.message

end SinkError

end Admission
