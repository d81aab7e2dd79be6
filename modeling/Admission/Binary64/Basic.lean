import Admission.Rounding

/-!
# Doubles

A finite double is a sign and a whole number of *units* of 2⁻¹⁰⁷⁴, the least positive double. Every
finite double is such a multiple, so sums and differences are exact integers before they are
rounded, and two finite doubles compare as integers do. There is one NaN.

## Main definitions

* `Binary64.Fits`: the unit counts that a double can hold.
* `Binary64`: NaN, the two infinities and the finite doubles.
* `Binary64.nearest`: the double nearest to a signed fraction, ties to the even significand.
* `Binary64.ofBits`, `Binary64.toBits`: the 64-bit interchange pattern.

## Main results

* `Binary64.fits_roundUnits`: what rounding returns fits, unless it overflows.
-/

namespace Admission

-- Powers of natural numbers are the core library's, whatever else is in scope.
attribute [local instance (high)] instPowNat

namespace Binary64

/-- How many units of 2⁻¹⁰⁷⁴ there are in one. -/
def unitsInOne : Nat := 2 ^ (1074 : Nat)

/-- The binary exponent, counted in units, at which finite doubles end. -/
@[irreducible] def topExponent : Nat := 2098

/-- The first magnitude past all finite doubles: 2¹⁰²⁴, in units of 2⁻¹⁰⁷⁴. -/
def overflow : Nat := 2 ^ topExponent

/-- A magnitude fits when it lies below the overflow bound and has at most 53 significant bits. -/
def Fits (units : Nat) : Prop :=
  units < overflow ∧ 2 ^ (units.log2 - 52) ∣ units

instance (units : Nat) : Decidable (Fits units) :=
  inferInstanceAs (Decidable (_ ∧ _))

/-- A number of at most 53 bits, shifted by any amount, has at most 53 significant bits. -/
theorem significant_mul_two_pow {m : Nat} (small : m ≤ 2 ^ (53 : Nat)) (k : Nat) :
    2 ^ ((m * 2 ^ k).log2 - 52) ∣ m * 2 ^ k := by
  rcases Nat.eq_zero_or_pos m with rfl | positive
  · simp
  · rcases Nat.lt_or_ge m (2 ^ (53 : Nat)) with less | more
    · have nonzero : m * 2 ^ k ≠ 0 := Nat.mul_ne_zero (by omega) (Nat.ne_of_gt (Nat.two_pow_pos k))
      have bound : m * 2 ^ k < 2 ^ (53 + k) := by
        rw [Nat.pow_add]
        exact Nat.mul_lt_mul_of_pos_right less (Nat.two_pow_pos k)
      have width := (Nat.log2_lt nonzero).2 bound
      exact Nat.dvd_trans (Nat.pow_dvd_pow 2 (by omega)) (Nat.dvd_mul_left _ _)
    · have same : m = 2 ^ (53 : Nat) := by omega
      rw [same, ← Nat.pow_add, Nat.log2_two_pow]
      exact Nat.pow_dvd_pow 2 (by omega)

theorem two_pow_le_overflow {k : Nat} (h : k ≤ 2098) : 2 ^ k ≤ overflow :=
  Nat.pow_le_pow_right Nat.zero_lt_two (by unfold topExponent; exact h)

theorem fits_zero : Fits 0 :=
  ⟨Nat.lt_of_lt_of_le Nat.zero_lt_one (two_pow_le_overflow (k := 0) (Nat.zero_le _)), by simp⟩

/-- `num / den` rounded to 53 significant bits, but never finer than one unit: to the nearest such
number, a tie to the one with the even significand. -/
def roundUnits (num den : Nat) : Nat :=
  let step := 2 ^ ((num / den).log2 - 52)
  roundDiv num (den * step) * step

theorem significant_roundUnits (num den : Nat) :
    2 ^ ((roundUnits num den).log2 - 52) ∣ roundUnits num den := by
  refine significant_mul_two_pow ?_ _
  rcases Nat.eq_zero_or_pos den with rfl | positive
  · have := roundDiv_le_div_add_one num (0 * 2 ^ ((num / 0).log2 - 52))
    simp only [Nat.zero_mul, Nat.div_zero] at this ⊢
    omega
  · refine roundDiv_le (Nat.mul_pos positive (Nat.two_pow_pos _)) ?_
    have width : num / den < 2 ^ (53 : Nat) * 2 ^ ((num / den).log2 - 52) := by
      rw [← Nat.pow_add]
      exact Nat.lt_of_lt_of_le Nat.lt_log2_self (Nat.pow_le_pow_right (by decide) (by omega))
    have below := (Nat.div_lt_iff_lt_mul positive).1 width
    calc num ≤ 2 ^ (53 : Nat) * 2 ^ ((num / den).log2 - 52) * den := Nat.le_of_lt below
      _ = 2 ^ (53 : Nat) * (den * 2 ^ ((num / den).log2 - 52)) := by
        rw [Nat.mul_assoc, Nat.mul_comm den]

theorem fits_roundUnits {num den : Nat} (h : roundUnits num den < overflow) :
    Fits (roundUnits num den) :=
  ⟨h, significant_roundUnits num den⟩

end Binary64

/-- A double. The two zeros are different values; all NaNs are one. -/
inductive Binary64
  | nan
  | infinity (negative : Bool)
  | finite (negative : Bool) (units : Nat) (fits : Binary64.Fits units)
  deriving DecidableEq

namespace Binary64

/-- Zero of either sign. -/
def zero (negative : Bool) : Binary64 := .finite negative 0 fits_zero

instance : Inhabited Binary64 := ⟨zero false⟩

/-- The double nearest to `num / den` units: an infinity past the greatest finite double. -/
def ofUnits (negative : Bool) (num den : Nat) : Binary64 :=
  if h : roundUnits num den < overflow then
    .finite negative (roundUnits num den) (fits_roundUnits h)
  else
    .infinity negative

/-- The double nearest to `num / den`. -/
def nearest (negative : Bool) (num den : Nat) : Binary64 :=
  ofUnits negative (num * unitsInOne) den

/-- The double nearest to a natural number. -/
def ofNat (n : Nat) : Binary64 := nearest false n 1

instance (n : Nat) : OfNat Binary64 n := ⟨ofNat n⟩

def isNaN : Binary64 → Bool
  | .nan => true
  | _ => false

def isFinite : Binary64 → Bool
  | .finite .. => true
  | _ => false

/-! ### Interchange pattern -/

theorem fits_of_fields {fraction shift : Nat} (h : fraction < 2 ^ (53 : Nat)) (small : shift ≤ 2045) :
    Fits (fraction * 2 ^ shift) := by
  refine ⟨?_, significant_mul_two_pow (Nat.le_of_lt h) shift⟩
  calc fraction * 2 ^ shift < 2 ^ (53 : Nat) * 2 ^ shift := Nat.mul_lt_mul_of_pos_right h (Nat.two_pow_pos _)
    _ = 2 ^ (53 + shift) := (Nat.pow_add ..).symm
    _ ≤ overflow := two_pow_le_overflow (by omega)

/-- The double of a 64-bit pattern: sign, eleven exponent bits, 52 fraction bits. -/
def ofBits (bits : UInt64) : Binary64 :=
  let negative := 2 ^ (63 : Nat) ≤ bits.toNat
  let exponent := bits.toNat / 2 ^ (52 : Nat) % 2 ^ (11 : Nat)
  let fraction := bits.toNat % 2 ^ (52 : Nat)
  if exponent = 2047 then
    if fraction = 0 then .infinity negative else .nan
  else if h : exponent = 0 then
    -- Zero and the subnormals: the fraction alone counts units.
    .finite negative (fraction * 2 ^ (0 : Nat)) (fits_of_fields (by omega) (by omega))
  else if h : exponent ≤ 2046 then
    -- The leading bit is implied.
    .finite negative ((2 ^ (52 : Nat) + fraction) * 2 ^ (exponent - 1)) (fits_of_fields (by omega) (by omega))
  else
    .nan

/-- The 64-bit pattern of a double; NaN gets the quiet pattern without payload. -/
def toBits : Binary64 → UInt64
  | .nan => 0x7ff8000000000000
  | .infinity negative => UInt64.ofNat (sign negative + 2047 * 2 ^ (52 : Nat))
  | .finite negative units _ =>
    if units < 2 ^ (52 : Nat) then
      UInt64.ofNat (sign negative + units)
    else
      let shift := units.log2 - 52
      UInt64.ofNat (sign negative + (shift + 1) * 2 ^ (52 : Nat) + (units / 2 ^ shift - 2 ^ (52 : Nat)))
where
  /-- The weight of the sign bit, when it is set. -/
  sign (negative : Bool) : Nat := if negative then 2 ^ (63 : Nat) else 0

end Binary64

end Admission
