import Admission.Binary64.Basic

/-!
# Arithmetic on doubles

Each operation takes the exact result and rounds it once. Comparison is on values, so the two zeros
are equal and NaN is ordered against nothing.

## Main definitions

* `Binary64.add`, `sub`, `mul`, `div`: the four operations, also as `+ - * /`.
* `Binary64.lt`, `Binary64.le`: comparison, also as `<` and `≤`.
* `Binary64.min`, `Binary64.max`: NaN gives way to the other operand.
* `Binary64.floorClamped`: the whole part, clamped into 64 unsigned bits.
-/

namespace Admission

-- Powers of natural numbers are the core library's, whatever else is in scope.
attribute [local instance (high)] instPowNat

namespace Binary64

/-- A finite double as a signed number of units. -/
def signed (negative : Bool) (units : Nat) : Int := if negative then -units else units

/-- The double with the sign changed. -/
def neg : Binary64 → Binary64
  | .nan => .nan
  | .infinity negative => .infinity !negative
  | .finite negative units fits => .finite (!negative) units fits

/-- The sum, rounded once. An exact sum of zero is positive unless both operands are negative. -/
def add : Binary64 → Binary64 → Binary64
  | .nan, _ | _, .nan => .nan
  | .infinity s, .infinity t => if s = t then .infinity s else .nan
  | .infinity s, .finite .. => .infinity s
  | .finite .., .infinity t => .infinity t
  | .finite s m _, .finite t n _ =>
    let exact := signed s m + signed t n
    if exact = 0 then zero (s && t) else ofUnits (decide (exact < 0)) exact.natAbs 1

/-- The difference, rounded once. -/
def sub (x y : Binary64) : Binary64 := add x y.neg

/-- The product, rounded once. -/
def mul : Binary64 → Binary64 → Binary64
  | .nan, _ | _, .nan => .nan
  | .infinity s, .infinity t => .infinity (s != t)
  | .infinity s, .finite t n _ => if n = 0 then .nan else .infinity (s != t)
  | .finite s m _, .infinity t => if m = 0 then .nan else .infinity (s != t)
  | .finite s m _, .finite t n _ => ofUnits (s != t) (m * n) unitsInOne

/-- The quotient, rounded once. A nonzero number over zero is infinite. -/
def div : Binary64 → Binary64 → Binary64
  | .nan, _ | _, .nan => .nan
  | .infinity _, .infinity _ => .nan
  | .infinity s, .finite t _ _ => .infinity (s != t)
  | .finite s _ _, .infinity t => zero (s != t)
  | .finite s m _, .finite t n _ =>
    if n = 0 then (if m = 0 then .nan else .infinity (s != t))
    else ofUnits (s != t) (m * unitsInOne) n

/-- Whether the left value is smaller. -/
def lt : Binary64 → Binary64 → Bool
  | .nan, _ | _, .nan => false
  | .infinity s, .infinity t => s && !t
  | .infinity s, .finite .. => s
  | .finite .., .infinity t => !t
  | .finite s m _, .finite t n _ => signed s m < signed t n

/-- Whether the left value is smaller or equal. -/
def le : Binary64 → Binary64 → Bool
  | .nan, _ | _, .nan => false
  | .infinity s, .infinity t => s || !t
  | .infinity s, .finite .. => s
  | .finite .., .infinity t => !t
  | .finite s m _, .finite t n _ => signed s m ≤ signed t n

instance : Neg Binary64 := ⟨neg⟩
instance : Add Binary64 := ⟨add⟩
instance : Sub Binary64 := ⟨sub⟩
instance : Mul Binary64 := ⟨mul⟩
instance : Div Binary64 := ⟨div⟩
instance : LT Binary64 := ⟨fun x y => lt x y = true⟩
instance : LE Binary64 := ⟨fun x y => le x y = true⟩
instance (x y : Binary64) : Decidable (x < y) := inferInstanceAs (Decidable (lt x y = true))
instance (x y : Binary64) : Decidable (x ≤ y) := inferInstanceAs (Decidable (le x y = true))

/-- The smaller operand, the left one of two equals; NaN gives way to the other operand. -/
def min (x y : Binary64) : Binary64 :=
  if x.isNaN then y else if y < x then y else x

/-- The larger operand, the left one of two equals; NaN gives way to the other operand. -/
def max (x y : Binary64) : Binary64 :=
  if x.isNaN then y else if x < y then y else x

/-- The whole part as a 64-bit count: NaN and negative values give 0, large values the greatest
count. -/
def floorClamped : Binary64 → UInt64
  | .nan | .infinity true | .finite true _ _ => 0
  | .infinity false => .ofNat (2 ^ (64 : Nat) - 1)
  | .finite false units _ => .ofNat (Nat.min (units / unitsInOne) (2 ^ (64 : Nat) - 1))

theorem not_nan_le (x : Binary64) : ¬nan ≤ x := Bool.false_ne_true

end Binary64

end Admission
