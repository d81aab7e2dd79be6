import Admission.Proofs.Binary64.Shortest
import Admission.Proofs.Codec.Double
import Admission.Proofs.Json.Scaling

/-!
# How far rereading moves a double

The shortest decimal of a double lies within half a step of it, and the double of a numeral within ten factors and
a unit of what the numeral spells. So a double that is written and read again keeps its sign and stays near. Where the
decimal is short, it is rounded once, which gives the double back.

## Main definitions

* `Binary64.Short`: the decimal that stands for the double is short.
* `Binary64.Beside`: the finite doubles of one sign that differ by at most 2⁻⁴⁹ of the first and two units.

## Main results

* `Binary64.beside_reread`: a finite double is reread as one beside it.
* `Binary64.reread_eq_self`: a double whose decimal is short is reread as itself.
* `Binary64.short_zero`, `Binary64.short_ofNat`: such doubles.
-/

namespace Admission

open Json

-- Powers of natural numbers are the core library's, whatever else is in scope.
attribute [local instance (high)] instPowNat

/-- A short decimal is spelled with no more than 53 bits of digits and a power of ten that is a double. -/
theorem Decimal.Short.spelling {d : Decimal} (short : d.Short) (negative : Bool) :
    Numeral.ofDigits ((d.spelling negative).numeral.whole ++ (d.spelling negative).numeral.fraction.getD []) ≤
        2 ^ (53 : ℕ) ∧
      ((d.spelling negative).numeral.shift - ((d.spelling negative).numeral.fraction.getD []).length).natAbs ≤ 22 := by
  have fewer : d.digits ≤ 2 ^ (53 : ℕ) := (Nat.le_mul_of_pos_right _ (Nat.pow_pos (by decide))).trans short.digits
  rw [Decimal.spelling]
  split
  · by_cases up : 0 ≤ d.exponent
    · obtain ⟨digits, place⟩ := parts_plainSpelling_of_nonneg negative up
      rw [digits, place]
      exact ⟨short.digits, by decide⟩
    · obtain ⟨digits, place⟩ := parts_plainSpelling_of_neg negative up
      rw [digits, place]
      exact ⟨fewer, short.exponent⟩
  · obtain ⟨digits, place⟩ := parts_exponentSpelling negative d
    rw [digits, place]
    exact ⟨fewer, short.exponent⟩

namespace Binary64

/-- Two finite doubles of one sign, the second of which differs from the first by at most 2⁻⁴⁹ of it and by at most
two units besides. -/
inductive Beside : Binary64 → Binary64 → Prop
  | finite (negative : Bool) {units units' : ℕ} (fits : Fits units) (fits' : Fits units')
    (near : 2 ^ (49 : ℕ) * ((units' : ℤ) - units).natAbs ≤ units + 2 ^ (50 : ℕ)) :
    Beside (.finite negative units fits) (.finite negative units' fits')

/-- The shortest decimal of a magnitude is as near to it as a rounding leads. -/
theorem blurred_shortest (units : ℕ) : Blurred 1 halfUnit (units / unitScale) (shortest units).value := by
  have positive := unitScale_pos
  refine .of_abs_le (div_nonneg units.cast_nonneg positive.le) ?_
  have near := abs_shortest_sub_le units
  -- Half a step is half a unit at the lower end, and further up the share of a rounding.
  have half : (2 : ℚ) ^ (units.log2 - 52) / 2 ≤ units * roundoff + 1 / 2 := by
    rcases Nat.lt_or_ge units.log2 52 with small | large
    · rw [Nat.sub_eq_zero_of_le small.le, pow_zero]
      exact le_add_of_nonneg_left (mul_nonneg units.cast_nonneg roundoff_pos.le)
    · have nonzero : units ≠ 0 := by
        rintro rfl
        simp at large
      have low : ((2 ^ (units.log2 - 52) * 2 ^ (52 : ℕ) : ℕ) : ℚ) ≤ units := by
        rw [← Nat.pow_add, Nat.sub_add_cancel large]
        exact_mod_cast Nat.log2_self_le nonzero
      push_cast at low
      rw [roundoff]
      linarith
  have value : (shortest units).value - units / unitScale =
      ((shortest units).value * unitScale - units) / unitScale := by
    rw [sub_div, mul_div_cancel_right₀ _ positive.ne']
  rw [value, abs_div, abs_of_pos positive, halfUnit, div_mul_eq_mul_div, ← add_div]
  exact div_le_div_of_nonneg_right (near.trans half) positive.le

theorem negative_spelling (negative : Bool) (units : ℕ) :
    (spelling negative units).numeral.negative = negative := by
  rw [spelling, Decimal.spelling]
  split
  · rw [Decimal.plainSpelling]
    split <;> rfl
  · rfl

theorem decimal_spelling (negative : Bool) (units : ℕ) :
    ∀ d ∈ (spelling negative units).numeral.fraction.getD [], d < 10 := by
  have proper := proper_spelling negative units
  cases fraction : (spelling negative units).fraction with
  | none => simp [Spelling.numeral, fraction]
  | some digits =>
    intro d mem
    simp only [Spelling.numeral, fraction, Option.map_some, Option.getD_some, List.mem_map] at mem
    obtain ⟨c, mem, rfl⟩ := mem
    exact digitValue_lt ((proper.fraction digits fraction).2 c mem)

/-- Eleven factors and two units, counted in units. -/
theorem mul_natAbs_sub_le {m n : ℕ} (near : Blurred 11 (2 / unitScale) (m / unitScale) (n / unitScale)) :
    2 ^ (49 : ℕ) * ((n : ℤ) - m).natAbs ≤ m + 2 ^ (50 : ℕ) := by
  have positive := unitScale_pos
  have moved := Blurred.abs_sub_le (div_nonneg m.cast_nonneg positive.le) near
  rw [← sub_div, abs_div, abs_of_pos positive, div_right_comm, ← add_div,
    div_le_div_iff_of_pos_right positive] at moved
  have whole : (2 : ℚ) ^ 49 * ((n : ℤ) - m).natAbs ≤ m + 2 ^ 50 := by
    have cast : ((((n : ℤ) - m).natAbs : ℕ) : ℚ) = |(n : ℚ) - m| := by
      rw [← Int.cast_natCast, Int.natCast_natAbs, Int.cast_abs]
      push_cast
      rfl
    rw [cast]
    linarith
  exact_mod_cast whole

variable {x : Binary64}

/-- A finite double is reread as one beside it. -/
theorem beside_reread (finite : x.isFinite = true) : x.Beside x.reread := by
  cases x with
  | nan => cases finite
  | infinity negative => cases finite
  | finite negative units fits =>
    have unit := halfUnit_pos
    have factor := one_sub_roundoff_pos
    obtain ⟨units', fits', same, near⟩ := Numeral.double?_near (Decimal.ofDigits_whole_lt negative _)
      (decimal_spelling negative units) (Option.some_get (isSome_double?_spelling negative fits)).symm
    rw [← spelling, negative_spelling] at same
    rw [Decimal.magnitude_spelling] at near
    -- Half a unit from the decimal, through ten factors, and a unit from its double.
    have besides : halfUnit / (1 - roundoff) ^ 10 + 2 * halfUnit ≤ 2 / unitScale := by
      have room : 1 / 2 ≤ (1 - roundoff) ^ 10 := by norm_num [roundoff]
      have first : halfUnit / (1 - roundoff) ^ 10 ≤ 2 * halfUnit := by
        rw [div_le_iff₀ (by positivity)]
        nlinarith
      have four : 4 * halfUnit = 2 / unitScale := by
        rw [halfUnit]
        ring
      linarith
    have total := (blurred_shortest units).trans unit.le near
    rw [reread, same]
    exact .finite negative fits fits'
      (mul_natAbs_sub_le (total.mono (div_nonneg units.cast_nonneg unitScale_pos.le) le_rfl besides))

/-- The double is finite, and the decimal that stands for it is short. -/
def Short : Binary64 → Prop
  | .finite _ units _ => (shortest units).Short
  | _ => False

/-- A double whose decimal is short is reread as itself. -/
theorem reread_eq_self (short : x.Short) : x.reread = x := by
  cases x with
  | nan => cases short
  | infinity negative => cases short
  | finite negative units fits =>
    obtain ⟨few, near⟩ := Decimal.Short.spelling short negative
    obtain ⟨units', fits', same, value⟩ := Numeral.double?_eq_rounded few near
      (Option.some_get (isSome_double?_spelling negative fits)).symm
    rw [← spelling, negative_spelling] at same
    rw [Decimal.magnitude_spelling, rounded_shortest fits.2, div_left_inj' unitScale_pos.ne', Nat.cast_inj] at value
    subst value
    rw [reread, same]

/-- Zero is short, of either sign. -/
theorem short_zero (negative : Bool) : (zero negative).Short := by
  rw [zero, Short, ← Nat.zero_mul unitsInOne]
  exact short_natCast (by decide)

/-- Whole numbers that leave room for one more digit are short. -/
theorem short_ofNat {n : ℕ} (small : n * 10 ≤ 2 ^ (53 : ℕ)) : (ofNat n).Short := by
  have denoted := denotes_natCast (n := n) (by omega)
  obtain ⟨units, fits, same⟩ := unsigned_ofUnits denoted.isFinite
  change ofNat n = _ at same
  have whole : units = n * unitsInOne := by
    rw [same] at denoted
    have value := denoted.unique (denotes_unsigned fits)
    rw [eq_div_iff unitScale_pos.ne', unitScale] at value
    exact_mod_cast value.symm
  rw [same, Short, whole]
  exact short_natCast small

end Binary64

end Admission
