import Admission.Codec.Standing

/-!
# Failures of a store

A store call fails in the store's own words, because a remote server answers with an error, or because
what the server keeps for a key is no standing.

## Main definitions

* `StoreOp`: the calls that a store understands.
* `ServerError`: what a remote server can answer instead of a value.
* `StoreError`: why a store call failed.
-/

namespace Admission

/-- The calls that a store understands. -/
inductive StoreOp
  | get
  | set
  | delete
  | close
  deriving DecidableEq, Repr

/-- The name of a call. -/
def StoreOp.name : StoreOp → String
  | .get => "get"
  | .set => "set"
  | .delete => "delete"
  | .close => "close"

/-- Why a remote server gives no answer: its address does not name one, or it answers with an error
code and, perhaps, a detail. -/
inductive ServerError
  | badAddress
  | signalled (code : String) (detail : Option String)
  deriving DecidableEq, Repr

namespace ServerError

/-- Reads an error reply: a code, and behind the first blank the detail. -/
def ofReply (reply : String) : ServerError :=
  let chars := reply.toList
  let code := chars.takeWhile (· ≠ ' ')
  match chars.dropWhile (· ≠ ' ') with
  | [] => .signalled (String.ofList code) none
  | _ :: detail => .signalled (String.ofList code) (some (String.ofList detail))

/-- The error in words. The general code `ERR` is put in words, any other code stands for itself. -/
def message : ServerError → String
  | .badAddress => "Redis URL did not parse- InvalidClientConfig"
  | .signalled "ERR" none => "An error was signalled by the server- ResponseError"
  | .signalled "ERR" (some detail) =>
    "An error was signalled by the server - ResponseError: " ++ detail
  | .signalled code none => code ++ ": Unknown extension error encountered"
  | .signalled code (some detail) => code ++ ": " ++ detail

end ServerError

/-- Why the text kept for a key could not be used. -/
inductive CodecFault
  | undecodable (fault : Json.Fault)
  | unencodable (error : Standing.EncodeError)
  deriving DecidableEq

/-- The fault in words, as far as it has any. -/
def CodecFault.message? : CodecFault → Option String
  | .undecodable (.mismatch reason) => some reason.message
  | .undecodable _ => none
  | .unencodable error => some error.message

/-- Why a store call failed. -/
inductive StoreError
  | failed (text : String)
  | server (error : ServerError)
  | codec (key : String) (fault : CodecFault)
  deriving DecidableEq

namespace StoreError

/-- What the caller is told. Of a standing that cannot be read or written this names the key under
which the server keeps it; the fault follows in `source?`. -/
def message : StoreError → String
  | .failed text => text
  | .server error => "redis error: " ++ error.message
  | .codec key _ => "invalid state for key " ++ key ++ ": "

/-- What the failure goes back to, in words. -/
def source? : StoreError → Option String
  | .failed _ => none
  | .server error => some error.message
  | .codec _ fault => fault.message?

/-- The failure in full: of a standing that cannot be read or written also what is wrong with it. -/
def text (error : StoreError) : String :=
  match error with
  | .codec _ fault => error.message ++ fault.message?.getD ""
  | _ => error.message

end StoreError

end Admission
