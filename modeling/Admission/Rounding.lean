/-!
# Rounding a quotient

`roundDiv num den` is the whole number nearest to `num / den`; a quotient halfway between two whole
numbers goes to the even one. Doubles and durations are both read off exact quotients with it.

## Main results

* `roundDiv_near`: the rounded quotient is within half a unit of the exact one.
* `roundDiv_mul`: a whole quotient is kept.
* `roundDiv_le`: rounding cannot pass a whole number.
-/

namespace Admission

/-- The whole number nearest to `num / den`, a tie going to the even neighbour. -/
def roundDiv (num den : Nat) : Nat :=
  let below := num / den
  let rest := num % den
  if 2 * rest < den ∨ (2 * rest = den ∧ below % 2 = 0) then below else below + 1

theorem div_le_roundDiv (num den : Nat) : num / den ≤ roundDiv num den := by
  simp only [roundDiv]
  split <;> omega

theorem roundDiv_le_div_add_one (num den : Nat) : roundDiv num den ≤ num / den + 1 := by
  simp only [roundDiv]
  split <;> omega

/-- Rounding moves a quotient by at most half a unit. -/
theorem roundDiv_near (num den : Nat) (positive : 0 < den) :
    2 * (roundDiv num den * den) ≤ 2 * num + den ∧
      2 * num ≤ 2 * (roundDiv num den * den) + den := by
  have whole : den * (num / den) + num % den = num := Nat.div_add_mod num den
  have rest := Nat.mod_lt num positive
  simp only [roundDiv]
  generalize num / den = below at *
  generalize num % den = left at *
  have up : (below + 1) * den = den * below + den := by rw [Nat.add_mul, Nat.mul_comm]; simp
  have down : below * den = den * below := Nat.mul_comm ..
  generalize den * below = part at *
  split <;> omega

/-- A whole quotient is its own rounding. -/
theorem roundDiv_mul (n den : Nat) (positive : 0 < den) : roundDiv (n * den) den = n := by
  simp [roundDiv, Nat.mul_div_cancel n positive, positive]

/-- Rounding cannot pass a whole number that bounds the quotient. -/
theorem roundDiv_le {num den bound : Nat} (positive : 0 < den) (h : num ≤ bound * den) :
    roundDiv num den ≤ bound := by
  rcases Nat.lt_or_ge (num / den) bound with less | more
  · exact Nat.le_trans (roundDiv_le_div_add_one num den) less
  · have same : num = bound * den := by
      have low : bound * den ≤ num := (Nat.le_div_iff_mul_le positive).1 more
      omega
    exact Nat.le_of_eq (by rw [same, roundDiv_mul bound den positive])

end Admission
