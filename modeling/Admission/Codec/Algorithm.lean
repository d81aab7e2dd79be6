import Admission.Algorithm
import Admission.Json.Reader

/-!
# Algorithms in JSON

An algorithm is its canonical name as a string; it is also read from an object whose only member has
that name and the value `null`.
-/

namespace Admission.Algorithm

/-- The algorithm of a canonical name. -/
def ofName (name : String) : Except Json.Fault Algorithm :=
  if name = tokenBucket.name then .ok .tokenBucket
  else if name = leakyBucket.name then .ok .leakyBucket
  else .error (.mismatch (.unknownVariant name [tokenBucket.name, leakyBucket.name]))

/-- Reads the name and the `null` of the object form, from behind the opening brace. -/
def readVariant (s : List Char) : Except Json.Fault (Algorithm × List Char) :=
  match Json.skipBlanks s with
  | [] => .error .unfinished
  | '"' :: s => do
    let (name, s) ← Json.stringFrom s
    let algorithm ← ofName name
    match Json.skipBlanks s with
    | [] => .error .unfinished
    | ':' :: s =>
      let ((), s) ← Json.unit s
      match Json.skipBlanks s with
      | [] => .error .unfinished
      | '\x7d' :: s => .ok (algorithm, s)
      | _ => .error .malformed
    | _ => .error .malformed
  -- Without a name there is nothing to be read of the object.
  | _ => .error .malformed

/-- Reads an algorithm. -/
def reader : Json.Reader Algorithm := fun s =>
  match Json.skipBlanks s with
  | [] => .error .unfinished
  | '"' :: s => do
    let (name, rest) ← Json.stringFrom s
    let algorithm ← ofName name
    return (algorithm, rest)
  | '\x7b' :: s => readVariant s
  | _ => .error .malformed

/-- Reads an algorithm from a whole text. -/
def decode (text : String) : Except Json.Fault Algorithm := Json.whole reader text

/-- Writes an algorithm. -/
def encode (a : Algorithm) : String := "\"" ++ a.name ++ "\""

end Admission.Algorithm
