import Admission.Binary64.Decimal

/-!
# Doubles as text

A finite double is written with the fewest digits that identify it: in plain notation with at least
one digit after the point from 10⁻⁵ up to 10¹⁶, and otherwise with one digit before the point and a
signed exponent.
-/

namespace Admission.Binary64

/-- The least decimal exponent, of the leading digit, that is written plainly. -/
def plainFrom : Int := -5

/-- The first decimal exponent that is no longer written plainly. -/
def plainBelow : Int := 16

/-- A natural number in decimal. -/
def digitsOf (n : Nat) : List Char := Nat.toDigits 10 n

/-- The digits with the point where the exponent puts it, and a zero on a side left empty. -/
def plainText (digits : List Char) (exponent : Int) : List Char :=
  if 0 ≤ exponent then digits ++ List.replicate exponent.toNat '0' ++ ['.', '0']
  else
    let places := (-exponent).toNat
    let padded := digits.leftpad (places + 1) '0'
    padded.take (padded.length - places) ++ '.' :: padded.drop (padded.length - places)

/-- The leading digit, the others after a point if there are any, and the exponent with its sign. -/
def exponentText (digits : List Char) (leading : Int) : List Char :=
  let mantissa := match digits with
    | [] => []
    | [d] => [d]
    | d :: ds => d :: '.' :: ds
  let sign := if leading < 0 then '-' else '+'
  mantissa ++ 'e' :: sign :: digitsOf leading.natAbs

/-- A magnitude as text. -/
def magnitudeText (units : Nat) : List Char :=
  let d := shortest units
  let digits := digitsOf d.digits
  let leading := d.exponent + digits.length - 1
  if plainFrom ≤ leading ∧ leading < plainBelow then plainText digits d.exponent
  else exponentText digits leading

/-- A double as text. Texts of the values that are no numbers stand for completeness: a JSON reader
never meets them. -/
def text : Binary64 → String
  | .nan => "NaN"
  | .infinity negative => if negative then "-inf" else "inf"
  | .finite negative units _ =>
    String.ofList (if negative then '-' :: magnitudeText units else magnitudeText units)

end Admission.Binary64
