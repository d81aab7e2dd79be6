import Admission.Codec.Time

/-!
# Quotas in JSON

A quota is an object of its three members, of which the burst may be missing and is then zero. What
is read passes the same checks as any other quota.
-/

namespace Admission.Quota

/-- The members of a quota, as far as they have been read. -/
structure Draft where
  limit : Option Nat
  interval : Option Duration
  burst : Option Nat

/-- The unchecked members of a quota. -/
structure Members where
  limit : Nat
  interval : Duration
  burst : Nat

/-- How the members of a quota are read. -/
def form : Json.Form Draft Members where
  name := "struct ConfigRepr"
  arrayName := "struct ConfigRepr with 3 elements"
  members := ["limit", "interval", "burst"]
  closed := false
  optional := 1
  blank := { limit := none, interval := none, burst := none }
  has member draft :=
    if member = "limit" then draft.limit.isSome
    else if member = "interval" then draft.interval.isSome
    else draft.burst.isSome
  member member draft s :=
    if member = "limit" then do
      let (n, rest) ← Json.count 64 "u64" s
      return ({ draft with limit := some n }, rest)
    else if member = "interval" then do
      let (d, rest) ← Duration.form.record s
      return ({ draft with interval := some d }, rest)
    else do
      let (n, rest) ← Json.count 64 "u64" s
      return ({ draft with burst := some n }, rest)
  finish draft :=
    match draft.limit, draft.interval with
    | none, _ => .error (.missingMember "limit")
    | some _, none => .error (.missingMember "interval")
    | some limit, some interval => .ok { limit, interval, burst := draft.burst.getD 0 }

/-- Reads a quota. -/
def reader : Json.Reader Quota := fun s => do
  let (members, rest) ← form.record s
  match make (.ofNat members.limit) members.interval (.ofNat members.burst) with
  | .ok quota => .ok (quota, rest)
  | .error e => .error (.mismatch (.quotaRefused e))

/-- Reads a quota from a whole text. -/
def decode (text : String) : Except Json.Fault Quota := Json.whole reader text

/-- Writes a quota. -/
def encode (q : Quota) : String :=
  "\x7b\"limit\":" ++ toString q.limit.toNat ++ ",\"interval\":" ++ q.interval.encode ++
    ",\"burst\":" ++ toString q.burst.toNat ++ "\x7d"

end Admission.Quota
