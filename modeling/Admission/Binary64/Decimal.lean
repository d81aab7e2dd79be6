import Admission.Binary64.Arithmetic

/-!
# Doubles in decimal

The decimal that stands for a double is the one with the fewest digits among those that round to it,
and of these the nearest. It is found by trying the decimal grids from coarse to fine; on each grid
only the two neighbours of the exact value can be nearest.

## Main definitions

* `Decimal`: `digits · 10 ^ exponent`.
* `Binary64.roundsTo`: whether a decimal lies among the reals that round to a magnitude.
* `Binary64.shortest`: the shortest decimal of a magnitude.
* `Binary64.ofDecimal`: the double nearest to a signed decimal.
-/

namespace Admission

-- Powers of natural numbers are the core library's, whatever else is in scope.
attribute [local instance (high)] instPowNat

/-- The number `digits · 10 ^ exponent`. -/
structure Decimal where
  digits : Nat
  exponent : Int
  deriving DecidableEq, Repr

namespace Decimal

/-- The decimal as a fraction of natural numbers. -/
def num (d : Decimal) : Nat := d.digits * 10 ^ d.exponent.toNat

/-- The denominator that goes with `num`, a power of ten. -/
def den (d : Decimal) : Nat := 10 ^ (-d.exponent).toNat

/-- Moves trailing zeros of the digits into the exponent; `fuel` bounds how many. -/
def stripZeros (fuel : Nat) (d : Decimal) : Decimal :=
  match fuel with
  | 0 => d
  | fuel + 1 =>
    if d.digits ≠ 0 ∧ d.digits % 10 = 0 then
      stripZeros fuel { digits := d.digits / 10, exponent := d.exponent + 1 }
    else
      d

end Decimal

namespace Binary64

/-- Four times the lower end of the reals that round to `units`: halfway to the double below, which
is half as far away just above a power of two. -/
def quadLow (units : Nat) : Nat :=
  let shift := units.log2 - 52
  4 * units - (if 0 < shift ∧ units = 2 ^ (52 + shift) then 2 ^ shift else 2 * 2 ^ shift)

/-- Four times the upper end of the reals that round to `units`. -/
def quadHigh (units : Nat) : Nat := 4 * units + 2 * 2 ^ (units.log2 - 52)

/-- Whether a decimal lies among the reals that round to `units`. The two ends belong to the
magnitude with the even significand. -/
def roundsTo (units : Nat) (d : Decimal) : Bool :=
  let point := 4 * unitsInOne * d.num
  let low := quadLow units * d.den
  let high := quadHigh units * d.den
  if units / 2 ^ (units.log2 - 52) % 2 = 0 then low ≤ point && point ≤ high
  else low < point && point < high

/-- The least `k` with `units · 2⁻¹⁰⁷⁴ < 10 ^ k`, for a positive magnitude. The search runs upwards
from an estimate by the binary logarithm, which is short of it by at most two. -/
def scale (units : Nat) : Int :=
  climb 4 (((units.log2 : Int) - 1075) * 30103 / 100000 - 1)
where
  climb (fuel : Nat) (k : Int) : Int :=
    match fuel with
    | 0 => k
    | fuel + 1 =>
      -- One of the two powers is 1, whichever sign `k` has.
      if units * 10 ^ (-k).toNat < 10 ^ k.toNat * unitsInOne then k else climb fuel (k + 1)

/-- The decimal of at most `places` digits that rounds to `units`, when there is one: of the two
neighbours of the exact value on the grid the nearer, a tie going to the even one. -/
def onGrid? (units places : Nat) : Option Decimal :=
  let exponent := scale units - places
  let grid : Decimal := { digits := 1, exponent }
  let exact := units * grid.den
  let step := unitsInOne * grid.num
  let down := exact / step
  let below : Decimal := { digits := down, exponent }
  let above : Decimal := { digits := down + 1, exponent }
  match roundsTo units below, roundsTo units above with
  | true, true => some { digits := roundDiv exact step, exponent }
  | true, false => some below
  | false, true => some above
  | false, false => none

/-- The decimal with the fewest digits that rounds to `units`, without trailing zeros. Seventeen
digits suffice for every double; should none of them do, the exact value stands. -/
def shortest (units : Nat) : Decimal :=
  if units = 0 then { digits := 0, exponent := 0 }
  else
    let found := ((List.range 17).findSome? fun n => onGrid? units (n + 1)).getD
      { digits := units * 5 ^ (1074 : Nat), exponent := -1074 }
    found.stripZeros found.digits.log2

/-- The double nearest to a signed decimal. Exponents so large or small that the answer is an
infinity or zero whatever the digits are answered without computing the power. -/
def ofDecimal (negative : Bool) (d : Decimal) : Binary64 :=
  if d.digits = 0 then zero negative
  else if 400 < d.exponent then .infinity negative
  else if d.exponent < -400 - (d.digits.log2 : Int) then zero negative
  else nearest negative d.num d.den

end Binary64

end Admission
