import Admission.Proofs.Binary64.Value
import Mathlib.Algebra.Order.Archimedean.Basic

/-!
# Ties

A number halfway between two doubles goes to the one that is an even number of steps. Where numbers are
counted by ones, this decides what becomes of a one that is half a step, and of half a step that an earlier
rounding left.

## Main results

* `Binary64.rounded_div_two_pow_add`: a tie above an even number of steps is rounded down.
* `Binary64.rounded_add_half`, `Binary64.rounded_add_half_of_le`: half a step above a whole number is kept
  below the next power of two, and rounded away from there on.
* `Binary64.rounded_two_pow_add_one`, `Binary64.rounded_two_pow_add_three`: ones above 2⁵³.
* `Binary64.Denotes.rounded_sub_one`: taking one away is exact up to 2⁵³.
* `Binary64.rounded_one_sub`, `Binary64.Denotes.rounded_sub_one_add_roundoff`: half steps around one.
-/

namespace Admission

-- Powers of natural numbers are the core library's, whatever else is in scope.
attribute [local instance (high)] instPowNat

namespace Binary64

/-! ### Even numbers of steps -/

theorem rounded_natCast_div_unitScale (n : ℕ) : rounded (n / unitScale) = roundUnits n 1 / unitScale := by
  have whole : nearestUnits ((n : ℚ) / (1 : ℕ)) = roundUnits n 1 := nearestUnits_div Nat.one_pos
  rw [Nat.cast_one, div_one] at whole
  rw [rounded_of_nonneg (div_nonneg n.cast_nonneg unitScale_pos.le), div_mul_cancel₀ _ unitScale_pos.ne', whole]

/-- A tie goes to the even side: rounding takes away what is at most half a step, if the steps up to there
are even in number. -/
theorem rounded_div_two_pow_add {m s i : ℕ} (small : m ≤ 2 ^ (53 : ℕ)) (large : 2 ^ (53 : ℕ) ≤ m * 2 ^ i)
    (even : 4 ∣ m * 2 ^ i) (shift : s + i ≤ 1074) :
    rounded (m / 2 ^ s + 1 / 2 ^ (s + i)) = m / 2 ^ s := by
  obtain ⟨j, hj⟩ : ∃ j, s + i + j = 1074 := ⟨_, Nat.add_sub_of_le shift⟩
  have scale : unitScale = 2 ^ s * 2 ^ i * 2 ^ j := by rw [unitScale_eq hj, pow_add, pow_add]
  have sum : (m : ℚ) / 2 ^ s + 1 / 2 ^ (s + i) = ((m * 2 ^ i + 1) * 2 ^ j : ℕ) / unitScale := by
    rw [scale, pow_add]
    push_cast
    field_simp
  have part : (m : ℚ) / 2 ^ s = (m * 2 ^ i * 2 ^ j : ℕ) / unitScale := by
    rw [scale]
    push_cast
    field_simp
  rw [sum, part, rounded_natCast_div_unitScale,
    roundUnits_succ_mul_two_pow even large (significant_mul_two_pow small i)]

/-! ### Half a step above a whole number -/

section

variable {x : ℚ} {m k e : ℕ}

/-- A number that is rounded up to a whole number lies below it by at most half a step. -/
theorem le_add_half_of_le_rounded (some : 0 < k) (size : k ≤ 2 ^ e) (h : (k : ℚ) ≤ rounded x) :
    (k : ℚ) ≤ x + 2 ^ e / 2 ^ 54 := by
  have top : (k : ℚ) ≤ 2 ^ e := by exact_mod_cast size
  have positive : 0 < rounded x := lt_of_lt_of_le (by exact_mod_cast some) h
  have nonneg : 0 ≤ x := by
    by_contra negative
    exact absurd (rounded_nonpos (not_le.1 negative).le) (not_le.2 positive)
  rcases le_or_gt (k : ℚ) x with whole | short
  · linarith [show (0 : ℚ) ≤ 2 ^ e / 2 ^ 54 by positivity]
  · have near := abs_rounded_sub_le_of_lt (q := x) (k := e) (by
      rw [abs_of_nonneg nonneg]
      exact short.trans_le top)
    linarith [(abs_le.1 near).2]

/-- Half a step of the numbers below 2 ^ `e` above a whole number is kept below 2 ^ (`e` - 1). -/
theorem rounded_add_half (size : 2 * m < 2 ^ e) (few : e ≤ 53) :
    rounded ((m : ℚ) + 2 ^ e / 2 ^ 54) = m + 2 ^ e / 2 ^ 54 := by
  obtain ⟨i, hi⟩ : ∃ i, e + i = 53 := ⟨_, Nat.add_sub_of_le few⟩
  have sum : (m : ℚ) + 2 ^ e / 2 ^ 54 = (2 * m * 2 ^ i + 1 : ℕ) / 2 ^ (i + 1) := by
    rw [show 54 = e + (i + 1) by omega, pow_add 2 e, pow_succ]
    push_cast
    field_simp
  have small : 2 * m * 2 ^ i + 1 ≤ 2 ^ (53 : ℕ) := by
    have : 2 * m * 2 ^ i < 2 ^ e * 2 ^ i := Nat.mul_lt_mul_of_pos_right size (Nat.two_pow_pos i)
    rw [← Nat.pow_add, hi] at this
    exact this
  rw [sum, rounded_div_two_pow small (by omega)]

/-- From there on it is rounded away. -/
theorem rounded_add_half_of_le (size : 2 ^ e ≤ 2 * m) (small : m ≤ 2 ^ (53 : ℕ))
    (even : e ≤ 52 ∨ e = 53 ∧ 2 ∣ m) : rounded ((m : ℚ) + 2 ^ e / 2 ^ 54) = m := by
  obtain ⟨i, hi⟩ : ∃ i, e + i = 54 := ⟨54 - e, by omega⟩
  have sum : (m : ℚ) + 2 ^ e / 2 ^ 54 = m / 2 ^ 0 + 1 / 2 ^ (0 + i) := by
    rw [← hi, pow_add, pow_zero, div_one, Nat.zero_add]
    field_simp
  have large : 2 ^ (53 : ℕ) ≤ m * 2 ^ i := by
    have : 2 ^ e * 2 ^ i ≤ 2 * m * 2 ^ i := Nat.mul_le_mul_right _ size
    rw [← Nat.pow_add, hi, Nat.mul_assoc] at this
    omega
  have fours : 4 ∣ m * 2 ^ i := by
    rcases even with coarse | ⟨rfl, twos⟩
    · exact (Nat.pow_dvd_pow 2 (show 2 ≤ i by omega)).trans (Nat.dvd_mul_left _ _)
    · have half : 2 ∣ 2 ^ i := Nat.pow_dvd_pow 2 (show 1 ≤ i by omega)
      exact Nat.mul_dvd_mul twos half
  rw [sum, rounded_div_two_pow_add small large fours (by omega), pow_zero, div_one]

end

/-! ### Ones above 2⁵³ -/

/-- One more than 2⁵³ is rounded down. -/
theorem rounded_two_pow_add_one : rounded (2 ^ 53 + 1) = 2 ^ 53 := by
  have tie := rounded_div_two_pow_add (m := 2 ^ (53 : ℕ)) (s := 0) (i := 0) le_rfl (by decide) (by decide)
    (by omega)
  rwa [natCast_two_pow, pow_zero, div_one, div_one] at tie

/-- Two more than 2⁵³ is a double. -/
theorem rounded_two_pow_add_two : rounded (2 ^ 53 + 2) = 2 ^ 53 + 2 := by
  have kept := rounded_mul_two_pow (m := 2 ^ (52 : ℕ) + 1) (by decide) 1
  norm_num at kept ⊢
  exact kept

/-- Three more than 2⁵³ is rounded up. -/
theorem rounded_two_pow_add_three : rounded (2 ^ 53 + 3) = 2 ^ 53 + 4 := by
  have units : roundUnits ((2 ^ (53 : ℕ) + 3) * unitsInOne) 1 = (2 ^ (53 : ℕ) + 4) * unitsInOne := by
    decide +kernel
  have exact (n : ℕ) : (n : ℚ) = (n * unitsInOne : ℕ) / unitScale := by
    rw [Nat.cast_mul, ← unitScale, mul_div_cancel_right₀ _ unitScale_pos.ne']
  have tie := rounded_natCast_div_unitScale ((2 ^ (53 : ℕ) + 3) * unitsInOne)
  rw [units, ← exact, ← exact] at tie
  exact_mod_cast tie

/-! ### Half steps around one -/

/-- Half a step below one is rounded up. -/
theorem rounded_one_sub : rounded (1 - 1 / 2 ^ 54) = 1 := by
  obtain ⟨e, he⟩ : ∃ e, e = 1020 := ⟨_, rfl⟩
  have up : roundUnits ((2 ^ (54 : ℕ) - 1) * 2 ^ e) 1 = unitsInOne := by
    rw [he]
    decide +kernel
  have units : (1 - 1 / 2 ^ 54 : ℚ) = ((2 ^ (54 : ℕ) - 1) * 2 ^ e : ℕ) / unitScale := by
    have scale : unitScale = 2 ^ 54 * 2 ^ e := by
      rw [unitScale_eq (show 54 + e = 1074 by omega), pow_add]
    have factor : ((2 ^ (54 : ℕ) - 1 : ℕ) : ℚ) = 2 ^ 54 - 1 := by norm_num
    rw [scale, Nat.cast_mul, natCast_two_pow, factor, mul_div_mul_right _ _ (by positivity), sub_div,
      div_self (by positivity)]
  rw [units, rounded_natCast_div_unitScale, up, ← unitScale, div_self unitScale_pos.ne']

theorem rounded_one_sub_roundoff : rounded (1 - roundoff) = 1 - roundoff := by
  have kept := rounded_div_two_pow (m := 2 ^ (53 : ℕ) - 1) (k := 53) (by decide) (by omega)
  norm_num [roundoff] at kept ⊢
  exact kept

/-- One less than a double from one to 2⁵³ lies on the grid of the double. -/
theorem Denotes.exists_sub_one_eq_div {y : Binary64} {p : ℚ} (h : Denotes y p) (low : 1 ≤ p)
    (high : p < 2 ^ 53) :
    ∃ n t m : ℕ, n + t = 52 ∧ p < 2 ^ (n + 1) ∧ p - 1 = m / 2 ^ t ∧ 2 ^ t + m < 2 ^ (53 : ℕ) := by
  obtain ⟨n, below, above⟩ := exists_nat_pow_near low one_lt_two
  have few : n ≤ 52 := by
    have := (pow_lt_pow_iff_right₀ one_lt_two).1 (below.trans_lt high)
    omega
  obtain ⟨t, ht⟩ : ∃ t, n + t = 52 := ⟨_, Nat.add_sub_of_le few⟩
  have scale : (2 : ℚ) ^ 52 = 2 ^ n * 2 ^ t := by rw [← pow_add, ht]
  have bits : 2 ^ (53 : ℕ) = 2 ^ t * 2 ^ (n + 1) := by rw [← Nat.pow_add, show t + (n + 1) = 53 by omega]
  -- From 2ⁿ to 2ⁿ⁺¹ the doubles are whole numbers of 2⁻ᵗ, and one is 2ᵗ of these.
  obtain ⟨k, hk⟩ := h.exists_eq_div (t := t) (by omega) (by
    rwa [scale, mul_div_cancel_right₀ _ (by positivity)])
  obtain ⟨m, rfl⟩ : ∃ m, k = 2 ^ t + m := by
    refine Nat.exists_eq_add_of_le ?_
    have : (2 : ℚ) ^ t ≤ k := by
      rw [hk, le_div_iff₀ (by positivity)] at low
      linarith
    exact_mod_cast this
  refine ⟨n, t, m, ht, above, ?_, ?_⟩
  · rw [hk, Nat.cast_add, natCast_two_pow, add_div, div_self (by positivity), add_sub_cancel_left]
  · rw [hk, div_lt_iff₀' (by positivity)] at above
    rw [bits]
    exact_mod_cast above

/-- One taken from a double from one to 2⁵³ leaves a double. -/
theorem Denotes.rounded_sub_one {y : Binary64} {p : ℚ} (h : Denotes y p) (low : 1 ≤ p) (high : p < 2 ^ 53) :
    rounded (p - 1) = p - 1 := by
  obtain ⟨n, t, m, ht, -, less, few⟩ := h.exists_sub_one_eq_div low high
  rw [less]
  exact rounded_div_two_pow ((Nat.le_add_left m _).trans few.le) (by omega)

/-- What a double from two on keeps when one is taken from it, less half a step at one, is what it keeps when
one is taken. -/
theorem Denotes.rounded_sub_one_add_roundoff {y : Binary64} {p : ℚ} (h : Denotes y p) (low : 2 ≤ p)
    (high : p < 2 ^ 53) : rounded (p - 1 + roundoff) = p - 1 := by
  obtain ⟨n, t, m, ht, above, less, few⟩ := h.exists_sub_one_eq_div (by linarith) high
  have some : 1 ≤ n := by
    by_contra none
    rw [Nat.lt_one_iff.1 (not_le.1 none), zero_add, pow_one] at above
    linarith
  have bits : 2 ^ (53 : ℕ) = 2 ^ t * 2 ^ (n + 1) := by rw [← Nat.pow_add, show t + (n + 1) = 53 by omega]
  have halves : roundoff = 1 / 2 ^ (t + (n + 1)) := by rw [roundoff, show t + (n + 1) = 53 by omega]
  -- On that grid 2⁻⁵³ is less than a step.
  rw [less, halves]
  refine rounded_div_two_pow_add ((Nat.le_add_left m _).trans few.le) ?_ ?_ (by omega)
  · have one : (1 : ℚ) ≤ m / 2 ^ t := by linarith
    rw [one_le_div (by positivity)] at one
    rw [bits]
    exact Nat.mul_le_mul_right _ (by exact_mod_cast one)
  · exact (Nat.pow_dvd_pow 2 (show 2 ≤ n + 1 by omega)).trans (Nat.dvd_mul_left _ _)

end Binary64

end Admission
