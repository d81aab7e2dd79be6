import Admission.Json.Fault

/-!
# Numbers in JSON

A numeral is lexed into its digits and then given a value. Integers that fit 64 bits stay integers.
Everything else becomes a double in three steps: the leading digits that fit 64 bits are kept as a
whole number, this is rounded to a double, and the double is scaled by one power of ten. The value can
therefore differ in the last bit from the double nearest to the numeral.

## Main definitions

* `Json.Numeral`: sign, digits and exponent as they are written.
* `Json.Numeral.lex`: the longest numeral at the head of a text.
* `Json.Numeral.value?`: its value; none past the range of doubles.
-/

namespace Admission.Json

-- Powers of natural numbers are the core library's, whatever else is in scope.
attribute [local instance (high)] instPowNat

/-- A numeral as it is written: sign, whole digits, digits after the point, and an exponent. -/
structure Numeral where
  negative : Bool
  whole : List Nat
  fraction : Option (List Nat)
  exponent : Option (Bool × List Nat)
  deriving DecidableEq, Repr

/-- The value of a numeral. -/
inductive Number
  | count (value : UInt64)
  | negative (magnitude : Nat)
  | fraction (value : Binary64)
  deriving DecidableEq

namespace Number

/-- A number as an error describes it. -/
def found : Number → Found
  | .count value => .integer value.toNat
  | .negative magnitude => .integer (-magnitude)
  | .fraction value => .fraction value

end Number

/-- The value of a decimal digit. -/
def digit? (c : Char) : Option Nat := if c.isDigit then some (c.toNat - '0'.toNat) else none

/-- The digits at the head of a text, and the text behind them. -/
def takeDigits : List Char → List Nat × List Char
  | [] => ([], [])
  | c :: rest =>
    match digit? c with
    | some d =>
      let more := takeDigits rest
      (d :: more.1, more.2)
    | none => ([], c :: rest)

namespace Numeral

/-- A numeral that breaks off: `atEnd` when the text ends where a digit had to follow. -/
structure Broken where
  atEnd : Bool
  deriving DecidableEq, Repr

/-- At least one digit. -/
def someDigits (s : List Char) : Except Broken (List Nat × List Char) :=
  match takeDigits s with
  | ([], []) => .error { atEnd := true }
  | ([], _ :: _) => .error { atEnd := false }
  | (digits, rest) => .ok (digits, rest)

/-- The digits before the point. A zero cannot be followed by another digit. -/
def lexWhole (s : List Char) : Except Broken (List Nat × List Char) := do
  let (digits, rest) ← someDigits s
  match digits with
  | 0 :: _ :: _ => .error { atEnd := false }
  | _ => .ok (digits, rest)

/-- The point and the digits behind it, if there is a point. -/
def lexFraction : List Char → Except Broken (Option (List Nat) × List Char)
  | '.' :: s => do
    let (digits, rest) ← someDigits s
    return (some digits, rest)
  | s => .ok (none, s)

/-- The exponent, if there is one: whether it is negative, and its digits. -/
def lexExponent : List Char → Except Broken (Option (Bool × List Nat) × List Char)
  | c :: s =>
    if c = 'e' ∨ c = 'E' then do
      let (negative, s) := match s with
        | '+' :: s => (false, s)
        | '-' :: s => (true, s)
        | s => (false, s)
      let (digits, rest) ← someDigits s
      return (some (negative, digits), rest)
    else .ok (none, c :: s)
  | [] => .ok (none, [])

/-- The digits and the exponent of a numeral whose sign is known. -/
def lexUnsigned (negative : Bool) (s : List Char) : Except Broken (Numeral × List Char) := do
  let (whole, s) ← lexWhole s
  let (fraction, s) ← lexFraction s
  let (exponent, s) ← lexExponent s
  return ({ negative, whole, fraction, exponent }, s)

/-- The longest numeral at the head of a text, and the text behind it. -/
def lex : List Char → Except Broken (Numeral × List Char)
  | '-' :: s => lexUnsigned true s
  | s => lexUnsigned false s

/-! ### Value -/

/-- Appends digits to a whole number as long as it stays within 64 bits; also the number of digits
left over. -/
def absorb (kept : Nat) : List Nat → Nat × Nat
  | [] => (kept, 0)
  | d :: ds =>
    if kept * 10 + d < 2 ^ (64 : Nat) then absorb (kept * 10 + d) ds else (kept, (d :: ds).length)

/-- The whole number that some digits spell. -/
def ofDigits (digits : List Nat) : Nat := digits.foldl (fun n d => n * 10 + d) 0

/-- The double of a power of ten. -/
def tenTo (k : Nat) : Binary64 := Binary64.ofDecimal false { digits := 1, exponent := k }

/-- A double times a power of ten: one multiplication or division by a power up to 10³⁰⁸, after
divisions by 10³⁰⁸ for exponents further down. None when the result is too large. Three divisions turn
every number of 64 bits into zero, so `fuel` three is enough. -/
def scale (fuel : Nat) (x : Binary64) (exponent : Int) : Option Binary64 :=
  if exponent.natAbs ≤ 308 then
    if 0 ≤ exponent then
      let scaled := x * tenTo exponent.natAbs
      if scaled.isFinite then some scaled else none
    else some (x / tenTo exponent.natAbs)
  else if x = Binary64.zero false then some x
  else if 0 ≤ exponent then none
  else
    match fuel with
    | 0 => some (Binary64.zero false)
    | fuel + 1 => scale fuel (x / tenTo 308) (exponent + 308)

/-- The double of a numeral: its kept digits, scaled. -/
def double? (n : Numeral) : Option Binary64 :=
  let (head, dropped) := absorb 0 n.whole
  -- A digit of the fraction can still fit where one before the point did not.
  let (kept, unused) := absorb head (n.fraction.getD [])
  let shift := match n.exponent with
    | none => (0 : Int)
    | some (true, digits) => -ofDigits digits
    | some (false, digits) => ofDigits digits
  let places := (n.fraction.getD []).length - unused
  let scaled := scale 3 (Binary64.ofNat kept) (shift + dropped - places)
  if n.negative then scaled.map Binary64.neg else scaled

/-- The value of a numeral. Whole numbers stay whole as far as 64 bits, signed or unsigned, hold them;
minus zero is a double. -/
def value? (n : Numeral) : Option Number :=
  match n.fraction, n.exponent with
  | none, none =>
    let magnitude := ofDigits n.whole
    if n.negative then
      if magnitude ≠ 0 ∧ magnitude ≤ 2 ^ (63 : Nat) then some (.negative magnitude)
      else n.double?.map .fraction
    else if magnitude < 2 ^ (64 : Nat) then some (.count (UInt64.ofNat magnitude))
    else n.double?.map .fraction
  | _, _ => n.double?.map .fraction

end Numeral

end Admission.Json
