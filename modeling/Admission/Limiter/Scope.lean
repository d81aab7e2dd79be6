/-!
# Lock scope

How many locks a limiter has, and which one guards a key.
-/

namespace Admission

/-- One lock for all keys, or keys spread over some locks. -/
inductive LockScope
  | global
  | sharded (shards : Nat)
  deriving DecidableEq, Repr

namespace LockScope

/-- The lock that guards a key: the keys of a sharded scope are spread by the sum of their bytes. -/
def lockOf : LockScope → String → Nat
  | .global, _ => 0
  | .sharded shards, key => (key.toUTF8.toList.foldl (fun sum b => sum + b.toNat) 0) % shards

/-- The scope in words. -/
def text : LockScope → String
  | .global => "Global"
  | .sharded shards => "Sharded(" ++ toString shards ++ ")"

end LockScope

end Admission
