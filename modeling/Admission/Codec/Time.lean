import Admission.Json.Reader
import Admission.Time.Instant

/-!
# Durations and instants in JSON

Both are written as whole seconds and nanoseconds. When they are read, a billion nanoseconds or more
carry into the seconds; an instant is read as its offset from the Unix epoch, so none before the epoch
can be written.
-/

namespace Admission

/-- The two members of a duration or an instant, as far as they have been read. -/
structure Json.SpanDraft where
  secs : Option Nat
  nanos : Option Nat

/-- How whole seconds and nanoseconds are read under the given member names. `tooLong` is the fault
of a span whose seconds overflow after the carry. -/
def Json.spanForm (name secs nanos : String) (tooLong : Json.Mismatch) :
    Json.Form Json.SpanDraft Duration where
  name := name
  arrayName := name
  members := [secs, nanos]
  closed := true
  optional := 0
  blank := { secs := none, nanos := none }
  has member draft := if member = secs then draft.secs.isSome else draft.nanos.isSome
  member member draft s :=
    if member = secs then do
      let (n, rest) ← Json.count 64 "u64" s
      return ({ draft with secs := some n }, rest)
    else do
      let (n, rest) ← Json.count 32 "u32" s
      return ({ draft with nanos := some n }, rest)
  finish draft :=
    match draft.secs, draft.nanos with
    | none, _ => .error (.missingMember secs)
    | some _, none => .error (.missingMember nanos)
    | some s, some n =>
      match Duration.ofNanos? (nanosPerSecond * s + n) with
      | some d => .ok d
      | none => .error tooLong

namespace Duration

/-- How a duration is read. -/
def form : Json.Form Json.SpanDraft Duration :=
  Json.spanForm "struct Duration" "secs" "nanos" .durationTooLong

/-- A duration in JSON. -/
def encode (d : Duration) : String :=
  "\x7b\"secs\":" ++ toString d.wholeSeconds ++ ",\"nanos\":" ++ toString d.subsecNanos ++ "\x7d"

end Duration

namespace Instant

/-- How the offset of an instant from the epoch is read. -/
def offsetForm : Json.Form Json.SpanDraft Duration :=
  Json.spanForm "struct SystemTime" "secs_since_epoch" "nanos_since_epoch" .offsetTooLong

/-- Reads an instant. -/
def reader : Json.Reader Instant := Json.convert offsetForm.record epoch.add? .instantTooLate

/-- An instant in JSON; none for an instant before the epoch. -/
def encode? (t : Instant) : Option String :=
  if 0 ≤ t.nanos then
    some ("\x7b\"secs_since_epoch\":" ++ toString t.unixSeconds.toNat ++ ",\"nanos_since_epoch\":" ++
      toString t.subsecNanos ++ "\x7d")
  else none

end Instant

end Admission
