import Admission.Binary64.Text
import Admission.Quota
import Admission.Text.Quoted

/-!
# Why a text cannot be read

Reading a text as a value fails because the text is no JSON, because it ends too early, or because
what stands there is not what the reader wants. Only the last kind carries words.

## Main definitions

* `Json.Found`: the value that stood in the way, as far as a reader looks at it.
* `Json.Mismatch`: what the reader wanted instead.
* `Json.Fault`: the three kinds of failure.
-/

namespace Admission.Json

/-- What stood where something else was wanted. -/
inductive Found
  | null
  | boolean (value : Bool)
  | integer (value : Int)
  | fraction (value : Binary64)
  | string (value : String)
  | sequence
  | map
  deriving DecidableEq

/-- A well-formed text that does not describe the value wanted. -/
inductive Mismatch
  | wrongType (found : Found) (expected : String)
  | outOfRange (found : Int) (expected : String)
  | wrongLength (length : Nat) (expected : String)
  | missingMember (name : String)
  | duplicateMember (name : String)
  | unknownMember (name : String) (known : List String)
  | unknownVariant (name : String) (known : List String)
  | durationTooLong
  | offsetTooLong
  | instantTooLate
  | quotaRefused (error : QuotaError)
  deriving DecidableEq

/-- Why a text cannot be read. -/
inductive Fault
  | malformed
  | unfinished
  | mismatch (reason : Mismatch)
  deriving DecidableEq

/-- The value that stood in the way, in words. -/
def Found.text : Found → String
  | .null => "null"
  | .boolean value => "boolean `" ++ toString value ++ "`"
  | .integer value => "integer `" ++ toString value ++ "`"
  | .fraction value => "floating point `" ++ value.text ++ "`"
  | .string value => "string " ++ Text.quote value
  | .sequence => "sequence"
  | .map => "map"

/-- The two known names, as an error lists them. -/
def knownText (known : List String) : String :=
  String.intercalate " or " (known.map fun name => "`" ++ name ++ "`")

/-- What the caller is told. -/
def Mismatch.message : Mismatch → String
  | .wrongType found expected => "invalid type: " ++ found.text ++ ", expected " ++ expected
  | .outOfRange found expected =>
    "invalid value: integer `" ++ toString found ++ "`, expected " ++ expected
  | .wrongLength length expected =>
    "invalid length " ++ toString length ++ ", expected " ++ expected
  | .missingMember name => "missing field `" ++ name ++ "`"
  | .duplicateMember name => "duplicate field `" ++ name ++ "`"
  | .unknownMember name known => "unknown field `" ++ name ++ "`, expected " ++ knownText known
  | .unknownVariant name known => "unknown variant `" ++ name ++ "`, expected " ++ knownText known
  | .durationTooLong => "overflow deserializing Duration"
  | .offsetTooLong => "overflow deserializing SystemTime epoch offset"
  | .instantTooLate => "overflow deserializing SystemTime"
  | .quotaRefused error => error.message

end Admission.Json
