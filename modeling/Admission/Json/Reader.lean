import Admission.Json.Numeral

/-!
# Reading JSON

A reader takes a value off the head of a text or says why it cannot. Faults are found from left to
right: what comes first in the text is reported, whether it is a slip of the notation or a value of the
wrong type.

## Main definitions

* `Json.Reader`: the type of readers.
* `Json.skip`: passes over one value of any type.
* `Json.count`, `Json.double`, `Json.unit`: the scalars.
* `Json.Form`, `Json.record`: a record, written as an object or as an array of its members in order.
* `Json.convert`, `Json.whole`: a reader whose value is taken for another; one applied to a whole text.
-/

namespace Admission.Json

-- Powers of natural numbers are the core library's, whatever else is in scope.
attribute [local instance (high)] instPowNat

/-- Takes a value off the head of a text. -/
abbrev Reader (α : Type) := List Char → Except Fault (α × List Char)

/-- The four blanks of the notation. -/
def isBlank (c : Char) : Bool := c = ' ' || c = '\n' || c = '\t' || c = '\r'

/-- The text behind the blanks at its head. -/
def skipBlanks (s : List Char) : List Char := s.dropWhile isBlank

/-- The fault of a numeral that is being read. -/
def Numeral.Broken.fault (b : Numeral.Broken) : Fault :=
  if b.atEnd then .unfinished else .malformed

/-- The number at the head of a text. -/
def number : Reader Number := fun s =>
  match Numeral.lex s with
  | .error b => .error b.fault
  | .ok (numeral, rest) =>
    match numeral.value? with
    | some value => .ok (value, rest)
    | none => .error .malformed

/-- The given letters at the head of a text. -/
def literal : List Char → List Char → Except Fault (List Char)
  | [], s => .ok s
  | _ :: _, [] => .error .unfinished
  | c :: word, d :: s => if c = d then literal word s else .error .malformed

/-! ### Strings -/

/-- The value of a hexadecimal digit. -/
def hexDigit? (c : Char) : Option Nat :=
  if '0' ≤ c ∧ c ≤ '9' then some (c.toNat - '0'.toNat)
  else if 'a' ≤ c ∧ c ≤ 'f' then some (c.toNat - 'a'.toNat + 10)
  else if 'A' ≤ c ∧ c ≤ 'F' then some (c.toNat - 'A'.toNat + 10)
  else none

/-- Four hexadecimal digits. A text of fewer than four bytes is unfinished, whatever it holds. -/
def hexQuad (s : List Char) : Except Fault (Nat × List Char) :=
  let short := (String.ofList s).utf8ByteSize < 4
  let broken : Except Fault (Nat × List Char) := .error (if short then .unfinished else .malformed)
  match s with
  | a :: b :: c :: d :: rest =>
    match hexDigit? a, hexDigit? b, hexDigit? c, hexDigit? d with
    | some a, some b, some c, some d => .ok (((a * 16 + b) * 16 + c) * 16 + d, rest)
    | _, _, _, _ => broken
  | _ => broken

/-- The character that a backslash and one more character stand for. -/
def escaped? : Char → Option Char
  | '"' => some '"'
  | '\\' => some '\\'
  | '/' => some '/'
  | 'b' => some (Char.ofNat 8)
  | 'f' => some (Char.ofNat 12)
  | 'n' => some '\n'
  | 'r' => some '\r'
  | 't' => some '\t'
  | _ => none

/-- The character of one or two 16-bit escapes, from behind the first `\u`. A leading surrogate needs
its partner. -/
def unicodeEscape (s : List Char) : Except Fault (Char × List Char) := do
  let (unit, s) ← hexQuad s
  if 0xDC00 ≤ unit ∧ unit ≤ 0xDFFF then .error .malformed
  else if unit < 0xD800 ∨ 0xDBFF < unit then .ok (Char.ofNat unit, s)
  else do
    let s ← literal ['\\', 'u'] s
    let (second, s) ← hexQuad s
    if second < 0xDC00 ∨ 0xDFFF < second then .error .malformed
    else .ok (Char.ofNat ((unit - 0xD800) * 0x400 + (second - 0xDC00) + 0x10000), s)

/-- The characters up to the closing quote, from behind the opening one. -/
def stringBody (fuel : Nat) (s : List Char) : Except Fault (List Char × List Char) :=
  match fuel, s with
  | 0, _ | _, [] => .error .unfinished
  | _ + 1, '"' :: s => .ok ([], s)
  | _ + 1, ['\\'] => .error .unfinished
  | fuel + 1, '\\' :: 'u' :: s => do
    let (c, s) ← unicodeEscape s
    let (more, s) ← stringBody fuel s
    return (c :: more, s)
  | fuel + 1, '\\' :: e :: s => do
    match escaped? e with
    | none => .error .malformed
    | some c =>
      let (more, s) ← stringBody fuel s
      return (c :: more, s)
  | fuel + 1, c :: s => do
    if c.toNat < 0x20 then .error .malformed
    else
      let (more, s) ← stringBody fuel s
      return (c :: more, s)

/-- A string, from behind its opening quote. -/
def stringFrom (s : List Char) : Except Fault (String × List Char) := do
  let (body, rest) ← stringBody (s.length + 1) s
  return (String.ofList body, rest)

/-! ### Passing over a value -/

/-- Passes over a string, from behind its opening quote. Which 16-bit escapes belong together is not
looked at. -/
def skipString (fuel : Nat) (s : List Char) : Except Fault (List Char) :=
  match fuel, s with
  | 0, _ | _, [] => .error .unfinished
  | _ + 1, '"' :: s => .ok s
  | _ + 1, ['\\'] => .error .unfinished
  | fuel + 1, '\\' :: 'u' :: s => do
    let (_, s) ← hexQuad s
    skipString fuel s
  | fuel + 1, '\\' :: e :: s =>
    match escaped? e with
    | none => .error .malformed
    | some _ => skipString fuel s
  | fuel + 1, c :: s => if c.toNat < 0x20 then .error .malformed else skipString fuel s

/-- Passes over a key and the colon behind it, from the opening quote. -/
def skipKey (s : List Char) : Except Fault (List Char) :=
  match skipBlanks s with
  | [] => .error .unfinished
  | '"' :: s => do
    match skipBlanks (← skipString (s.length + 1) s) with
    | [] => .error .unfinished
    | ':' :: s => .ok s
    | _ => .error .malformed
  | _ => .error .malformed

mutual

/-- Passes over one value. Numbers are not evaluated, so none of them is too large. -/
def skipValue (fuel : Nat) (s : List Char) : Except Fault (List Char) :=
  match fuel with
  | 0 => .error .unfinished
  | fuel + 1 =>
    match skipBlanks s with
    | [] => .error .unfinished
    | 'n' :: s => literal "ull".toList s
    | 't' :: s => literal "rue".toList s
    | 'f' :: s => literal "alse".toList s
    | '"' :: s => skipString (s.length + 1) s
    | '[' :: s =>
      match skipBlanks s with
      | ']' :: s => .ok s
      | [] => .error .unfinished
      | s => skipItems fuel s
    | '\x7b' :: s =>
      match skipBlanks s with
      | '\x7d' :: s => .ok s
      | [] => .error .unfinished
      | s => skipMembers fuel s
    | c :: s =>
      if c = '-' ∨ c.isDigit then
        match Numeral.lex (c :: s) with
        | .error _ => .error .malformed
        | .ok (_, rest) => .ok rest
      else .error .malformed

/-- Passes over the items of an array up to its closing bracket. -/
def skipItems (fuel : Nat) (s : List Char) : Except Fault (List Char) :=
  match fuel with
  | 0 => .error .unfinished
  | fuel + 1 => do
    match skipBlanks (← skipValue fuel s) with
    | [] => .error .unfinished
    | ',' :: s => skipItems fuel s
    | ']' :: s => .ok s
    | _ => .error .malformed

/-- Passes over the members of an object up to its closing brace. -/
def skipMembers (fuel : Nat) (s : List Char) : Except Fault (List Char) :=
  match fuel with
  | 0 => .error .unfinished
  | fuel + 1 => do
    match skipBlanks (← skipValue fuel (← skipKey s)) with
    | [] => .error .unfinished
    | ',' :: s => skipMembers fuel s
    | '\x7d' :: s => .ok s
    | _ => .error .malformed

end

/-- Passes over one value of any type. -/
def skip (s : List Char) : Except Fault (List Char) := skipValue (2 * s.length + 2) s

/-! ### Scalars -/

/-- Refuses the value at the head of a text, which is not of the expected type. A scalar is read to
its end before it is refused. -/
def refuse {α : Type} (expected : String) (s : List Char) : Except Fault α := do
  let found ← match s with
    | 'n' :: s => do
      let _ ← literal "ull".toList s
      pure Found.null
    | 't' :: s => do
      let _ ← literal "rue".toList s
      pure (Found.boolean true)
    | 'f' :: s => do
      let _ ← literal "alse".toList s
      pure (Found.boolean false)
    | '"' :: s => do
      let (text, _) ← stringFrom s
      pure (Found.string text)
    | '[' :: _ => pure Found.sequence
    | '\x7b' :: _ => pure Found.map
    | c :: s =>
      if c = '-' ∨ c.isDigit then do
        let (value, _) ← number (c :: s)
        pure value.found
      else .error .malformed
    | [] => .error .malformed
  .error (.mismatch (.wrongType found expected))

/-- A number at the head of a text, or the refusal of what stands there instead. -/
def numeric (expected : String) : Reader Number := fun s =>
  match skipBlanks s with
  | [] => .error .unfinished
  | c :: s => if c = '-' ∨ c.isDigit then number (c :: s) else refuse expected (c :: s)

/-- A whole number below `2 ^ bits`, which the errors call `expected`. -/
def count (bits : Nat) (expected : String) : Reader Nat := fun s => do
  let (value, rest) ← numeric expected s
  match value with
  | .count n =>
    -- Where all 64 bits are wanted this always holds.
    if n.toNat < 2 ^ bits then .ok (n.toNat, rest)
    else .error (.mismatch (.outOfRange n.toNat expected))
  | .negative m => .error (.mismatch (.outOfRange (-m) expected))
  | .fraction x => .error (.mismatch (.wrongType (.fraction x) expected))

/-- A double; a whole number is rounded to one. -/
def double : Reader Binary64 := fun s => do
  let (value, rest) ← numeric "f64" s
  match value with
  | .count n => .ok (Binary64.ofNat n.toNat, rest)
  | .negative m => .ok (Binary64.nearest true m 1, rest)
  | .fraction x => .ok (x, rest)

/-- The value `null`, where nothing else can stand. -/
def unit : Reader Unit := fun s =>
  match skipBlanks s with
  | [] => .error .unfinished
  | 'n' :: s => do
    let rest ← literal "ull".toList s
    return ((), rest)
  | s => refuse "unit" s

/-! ### Records -/

/-- How a record is read. A draft of type `δ` collects the members until `finish` makes a value. -/
structure Form (δ α : Type) where
  /-- What the errors call the record. -/
  name : String
  /-- What the errors call the array form. -/
  arrayName : String
  /-- The members, in the order in which an array lists them. -/
  members : List String
  /-- Whether members of other names are refused; otherwise they are passed over. -/
  closed : Bool
  /-- How many members at the end an array may leave out. -/
  optional : Nat
  /-- The draft without members. -/
  blank : δ
  /-- Whether a member is in the draft. -/
  has : String → δ → Bool
  /-- Reads a member's value into the draft. -/
  member : String → δ → Reader δ
  /-- The value of the draft, or the first fault in it. -/
  finish : δ → Except Mismatch α

namespace Form

variable {δ α : Type} (form : Form δ α)

/-- The value of a draft at the end of a record. -/
def close (draft : δ) : Except Fault α :=
  match form.finish draft with
  | .ok value => .ok value
  | .error reason => .error (.mismatch reason)

/-- Reads one member of an object from behind the opening quote of its key. -/
def readMember (draft : δ) (s : List Char) : Except Fault (δ × List Char) := do
  let (key, s) ← stringFrom s
  if key ∉ form.members ∧ form.closed then
    .error (.mismatch (.unknownMember key form.members))
  else if key ∈ form.members ∧ form.has key draft then
    .error (.mismatch (.duplicateMember key))
  else
    match skipBlanks s with
    | [] => .error .unfinished
    | ':' :: s =>
      if key ∈ form.members then form.member key draft s
      else do
        let rest ← skip s
        return (draft, rest)
    | _ => .error .malformed

/-- Reads the members of an object from behind a member up to the closing brace. -/
def readRest (fuel : Nat) (draft : δ) (s : List Char) : Except Fault (α × List Char) :=
  match fuel with
  | 0 => .error .unfinished
  | fuel + 1 =>
    match skipBlanks s with
    | [] => .error .unfinished
    | '\x7d' :: s => do
      let value ← form.close draft
      return (value, s)
    | ',' :: s =>
      match skipBlanks s with
      | [] => .error .unfinished
      | '"' :: s => do
        let (draft, s) ← form.readMember draft s
        readRest fuel draft s
      | _ => .error .malformed
    | _ => .error .malformed

/-- Reads an object from behind its opening brace. -/
def readObject (s : List Char) : Except Fault (α × List Char) :=
  match skipBlanks s with
  | [] => .error .unfinished
  | '\x7d' :: s => do
    let value ← form.close form.blank
    return (value, s)
  | '"' :: s => do
    let (draft, s) ← form.readMember form.blank s
    form.readRest (s.length + 1) draft s
  | _ => .error .malformed

/-- The end of an array of which every wanted item has been read. -/
def closeArray (s : List Char) : Except Fault (List Char) :=
  match skipBlanks s with
  | [] => .error .unfinished
  | ']' :: s => .ok s
  | _ => .error .malformed

/-- Reads the members that are left of an array. `seen` members have been read. -/
def readItems (seen : Nat) (draft : δ) (names : List String) (s : List Char) :
    Except Fault (α × List Char) :=
  match names with
  | [] => do
    let value ← form.close draft
    let rest ← closeArray s
    return (value, rest)
  | name :: names =>
    match skipBlanks s with
    | [] => .error .unfinished
    | ']' :: s =>
      if form.members.length ≤ seen + form.optional then do
        let value ← form.close draft
        return (value, s)
      else .error (.mismatch (.wrongLength seen form.arrayName))
    | c :: s =>
      -- The first item has no comma before it.
      if seen = 0 then do
        let (draft, s) ← form.member name draft (c :: s)
        readItems (seen + 1) draft names s
      else if c = ',' then
        match skipBlanks s with
        | [] => .error .unfinished
        | ']' :: _ => .error .malformed
        | s => do
          let (draft, s) ← form.member name draft s
          readItems (seen + 1) draft names s
      else .error .malformed

/-- A record: an object with the members in any order, or an array of them in the given order. -/
def record : Reader α := fun s =>
  match skipBlanks s with
  | [] => .error .unfinished
  | '\x7b' :: s => form.readObject s
  | '[' :: s => form.readItems 0 form.blank form.members s
  | s => refuse form.name s

end Form

/-- Reads a value and takes it for another one; what stands for none is refused for the given reason. -/
def convert {α β : Type} (reader : Reader α) (value? : α → Option β) (reason : Mismatch) : Reader β :=
  fun s => do
    let (a, rest) ← reader s
    match value? a with
    | some b => .ok (b, rest)
    | none => .error (.mismatch reason)

/-- Reads a whole text as one value with nothing but blanks behind it. -/
def whole {α : Type} (reader : Reader α) (text : String) : Except Fault α := do
  let (value, rest) ← reader text.toList
  match skipBlanks rest with
  | [] => .ok value
  | _ => .error .malformed

end Admission.Json
