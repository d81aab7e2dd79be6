import Admission.Codec.Time
import Admission.Standing

/-!
# Standings in JSON

A standing is an object of its three members. Credits that are no numbers are written as `null`, which
cannot be read back.
-/

namespace Admission.Standing

/-- The members of a standing, as far as they have been read. -/
structure Draft where
  credits : Option Binary64
  lastUpdate : Option Instant
  created : Option Instant

/-- How a standing is read. -/
def form : Json.Form Draft Standing where
  name := "struct State"
  arrayName := "struct State with 3 elements"
  members := ["credits", "last_update", "created"]
  closed := false
  optional := 0
  blank := { credits := none, lastUpdate := none, created := none }
  has member draft :=
    if member = "credits" then draft.credits.isSome
    else if member = "last_update" then draft.lastUpdate.isSome
    else draft.created.isSome
  member member draft s :=
    if member = "credits" then do
      let (x, rest) ← Json.double s
      return ({ draft with credits := some x }, rest)
    else if member = "last_update" then do
      let (t, rest) ← Instant.reader s
      return ({ draft with lastUpdate := some t }, rest)
    else do
      let (t, rest) ← Instant.reader s
      return ({ draft with created := some t }, rest)
  finish draft :=
    match draft.credits, draft.lastUpdate, draft.created with
    | none, _, _ => .error (.missingMember "credits")
    | some _, none, _ => .error (.missingMember "last_update")
    | some _, some _, none => .error (.missingMember "created")
    | some credits, some lastUpdate, some created => .ok { credits, lastUpdate, created }

/-- Reads a standing. -/
def decode (text : String) : Except Json.Fault Standing := Json.whole form.record text

/-- A standing that cannot be written: one of its instants lies before the epoch. -/
inductive EncodeError
  | beforeEpoch
  deriving DecidableEq, Repr

/-- What the caller is told. -/
def EncodeError.message : EncodeError → String
  | .beforeEpoch => "SystemTime must be later than UNIX_EPOCH"

/-- Credits in JSON. -/
def encodeCredits (credits : Binary64) : String :=
  if credits.isFinite then credits.text else "null"

/-- Writes a standing. -/
def encode (s : Standing) : Except EncodeError String :=
  match s.lastUpdate.encode?, s.created.encode? with
  | some lastUpdate, some created =>
    .ok ("\x7b\"credits\":" ++ encodeCredits s.credits ++ ",\"last_update\":" ++ lastUpdate ++
      ",\"created\":" ++ created ++ "\x7d")
  | _, _ => .error .beforeEpoch

end Admission.Standing
