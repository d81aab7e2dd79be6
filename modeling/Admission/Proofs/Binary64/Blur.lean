import Admission.Proofs.Binary64.Nearest

/-!
# Several roundings in a row

One rounding moves a number by a factor that lies between 1 - 2⁻⁵³ and its inverse, and a tiny number by half a
unit besides. Dividing by a rounded number moves the quotient by such a factor as well. What several of these
steps do together is bounded by a power of the factor and a sum of half units.

## Main definitions

* `Binary64.halfUnit`: half the least positive double.
* `Binary64.Blurred`: the number has been moved by so many factors, and by so much besides.

## Main results

* `Binary64.Blurred.trans`: steps add up.
* `Binary64.blurred_rounded`, `Binary64.Blurred.div`: a rounding, and a quotient by a rounded number.
* `Binary64.Blurred.abs_sub_le`: what few factors come to.
-/

namespace Admission

-- Powers of natural numbers are the core library's, whatever else is in scope.
attribute [local instance (high)] instPowNat

namespace Binary64

/-- Half the least positive double, which is how far rounding moves a tiny number. -/
def halfUnit : ℚ := 1 / 2 / unitScale

theorem halfUnit_pos : 0 < halfUnit := div_pos (by norm_num) unitScale_pos

theorem roundoff_lt_one : roundoff < 1 := by norm_num [roundoff]

theorem one_sub_roundoff_pos : 0 < 1 - roundoff := sub_pos.2 roundoff_lt_one

theorem one_sub_roundoff_le_one : 1 - roundoff ≤ 1 := sub_le_self 1 roundoff_pos.le

/-- Rounding moves a number by at most a factor of 1 ± 2⁻⁵³ and half a unit. -/
theorem abs_rounded_sub_le_add (q : ℚ) : |rounded q - q| ≤ |q| * roundoff + halfUnit := by
  rcases le_total leastNormal |q| with normal | tiny
  · exact (abs_rounded_sub_le normal).trans (le_add_of_nonneg_right halfUnit_pos.le)
  · have size : |q| * unitScale < 2 ^ (53 + 0) := by
      rw [leastNormal, le_div_iff₀ unitScale_pos] at tiny
      exact tiny.trans_lt (by norm_num)
    have near := abs_nearestUnits_sub_le (mul_nonneg (abs_nonneg q) unitScale_pos.le) size
    rw [pow_zero] at near
    rw [abs_rounded_sub_eq_div]
    exact (div_le_div_of_nonneg_right near unitScale_pos.le).trans
      (le_add_of_nonneg_left (mul_nonneg (abs_nonneg q) roundoff_pos.le))

/-- The number `w` is `q`, moved by at most `n` factors of 1 - 2⁻⁵³ or their inverses, and by `c` besides. -/
structure Blurred (n : ℕ) (c q w : ℚ) : Prop where
  low : q * (1 - roundoff) ^ n - c ≤ w
  high : w ≤ q / (1 - roundoff) ^ n + c

variable {m n : ℕ} {a b c p q t w : ℚ}

namespace Blurred

/-- A relative error of 2⁻⁵³ is a factor. -/
theorem of_abs_le (nonneg : 0 ≤ q) (near : |w - q| ≤ q * roundoff + c) : Blurred 1 c q w := by
  rw [abs_le] at near
  have factor : q * (1 + roundoff) ≤ q / (1 - roundoff) := by
    rw [le_div_iff₀ one_sub_roundoff_pos]
    nlinarith [mul_nonneg nonneg (sq_nonneg roundoff)]
  constructor
  · rw [pow_one]
    linarith
  · rw [pow_one]
    linarith

/-- Steps add up; what the first moves the number by besides is moved by the factors of the second. -/
theorem trans (nonneg : 0 ≤ a) (first : Blurred m a q p) (second : Blurred n b p w) :
    Blurred (m + n) (a / (1 - roundoff) ^ n + b) q w := by
  have power : 0 < (1 - roundoff) ^ n := pow_pos one_sub_roundoff_pos n
  have shrink : a * (1 - roundoff) ^ n ≤ a / (1 - roundoff) ^ n := by
    have le_one : (1 - roundoff) ^ n ≤ 1 := pow_le_one₀ one_sub_roundoff_pos.le one_sub_roundoff_le_one
    exact (mul_le_of_le_one_right nonneg le_one).trans (le_div_self nonneg power le_one)
  constructor
  · have low := mul_le_mul_of_nonneg_right first.low power.le
    rw [sub_mul, mul_assoc, ← pow_add] at low
    linarith [second.low]
  · have high := div_le_div_of_nonneg_right first.high power.le
    rw [add_div, div_div, ← pow_add] at high
    linarith [second.high]

theorem trans_of_zero (first : Blurred m 0 q p) (second : Blurred n b p w) : Blurred (m + n) b q w := by
  have := first.trans le_rfl second
  rwa [zero_div, zero_add] at this

theorem mono (nonneg : 0 ≤ q) (h : Blurred m a q w) (factors : m ≤ n) (besides : a ≤ b) : Blurred n b q w := by
  have power := pow_le_pow_of_le_one one_sub_roundoff_pos.le one_sub_roundoff_le_one factors
  constructor
  · have := mul_le_mul_of_nonneg_left power nonneg
    linarith [h.low]
  · have := div_le_div_of_nonneg_left nonneg (pow_pos one_sub_roundoff_pos n) power
    linarith [h.high]

/-- A blurred number is scaled with what it was. -/
theorem mul_right (h : Blurred n c q w) (nonneg : 0 ≤ t) : Blurred n (c * t) (q * t) (w * t) := by
  constructor
  · calc q * t * (1 - roundoff) ^ n - c * t = (q * (1 - roundoff) ^ n - c) * t := by ring
      _ ≤ w * t := mul_le_mul_of_nonneg_right h.low nonneg
  · calc w * t ≤ (q / (1 - roundoff) ^ n + c) * t := mul_le_mul_of_nonneg_right h.high nonneg
      _ = q * t / (1 - roundoff) ^ n + c * t := by ring

theorem mul_left (h : Blurred n 0 q w) (nonneg : 0 ≤ t) : Blurred n 0 (t * q) (t * w) := by
  have := h.mul_right nonneg
  rwa [zero_mul, mul_comm q, mul_comm w] at this

/-- Dividing by a number that is off by a factor moves the quotient by the factor. -/
theorem div (h : Blurred 1 0 q t) (positive : 0 < q) (nonneg : 0 ≤ p) : Blurred 1 0 (p / q) (p / t) := by
  obtain ⟨low, high⟩ := h
  rw [pow_one, sub_zero] at low
  rw [pow_one, add_zero] at high
  have factor := one_sub_roundoff_pos
  have positive' : 0 < t := (mul_pos positive factor).trans_le low
  constructor
  · calc p / q * (1 - roundoff) ^ 1 - 0 = p / (q / (1 - roundoff)) := by
          rw [pow_one, sub_zero, div_div_eq_mul_div, div_mul_eq_mul_div]
      _ ≤ p / t := div_le_div_of_nonneg_left nonneg positive' high
  · calc p / t ≤ p / (q * (1 - roundoff)) := div_le_div_of_nonneg_left nonneg (mul_pos positive factor) low
      _ = p / q / (1 - roundoff) ^ 1 + 0 := by rw [pow_one, add_zero, div_div]

/-- What is no more than the number may be moved by besides can be taken for zero. -/
theorem zero (nonneg : 0 ≤ q) (small : q ≤ c) : Blurred n c q 0 := by
  have power : 0 < (1 - roundoff) ^ n := pow_pos one_sub_roundoff_pos n
  constructor
  · have := mul_le_of_le_one_right nonneg (pow_le_one₀ one_sub_roundoff_pos.le one_sub_roundoff_le_one (n := n))
    linarith
  · exact add_nonneg (div_nonneg nonneg power.le) (nonneg.trans small)

/-- Eleven factors come to less than 2⁻⁴⁹. -/
theorem abs_sub_le (nonneg : 0 ≤ q) (h : Blurred 11 c q w) : |w - q| ≤ q / 2 ^ 49 + c := by
  have down : 1 - 1 / 2 ^ 49 ≤ (1 - roundoff) ^ 11 := by norm_num [roundoff]
  have up : 1 / (1 - roundoff) ^ 11 ≤ 1 + 1 / 2 ^ 49 := by norm_num [roundoff]
  have low := mul_le_mul_of_nonneg_left down nonneg
  have high := mul_le_mul_of_nonneg_left up nonneg
  rw [mul_one_div] at high
  rw [abs_le]
  constructor
  · linarith [h.low]
  · linarith [h.high]

end Blurred

/-- One rounding. -/
theorem blurred_rounded (nonneg : 0 ≤ q) : Blurred 1 halfUnit q (rounded q) := by
  refine .of_abs_le nonneg ?_
  have near := abs_rounded_sub_le_add q
  rwa [abs_of_nonneg nonneg] at near

/-- A natural number is not tiny. -/
theorem blurred_rounded_natCast (k : ℕ) : Blurred 1 0 k (rounded k) := by
  refine .of_abs_le k.cast_nonneg ?_
  have near := (onGrid_natCast k).abs_rounded_sub_le
  rw [abs_of_nonneg (k.cast_nonneg (α := ℚ))] at near
  rwa [add_zero]

end Binary64

end Admission
