import Admission.Binary64.Decimal
import Admission.Proofs.Binary64.Range

/-!
# How near the shortest decimal is

The decimal that stands for a double is found on a grid of decimals, or is the exact value of the double. Either
way it lies among the reals that round to the double, so it is not far from it.

## Main definitions

* `Decimal.value`: the rational number that a decimal stands for.
* `Binary64.Near`: a decimal lies between the two ends of the reals that round to a magnitude.

## Main results

* `Binary64.exists_shortest_eq`: where the shortest decimal is found.
* `Binary64.shortest_near`: it lies between the two ends.
* `Binary64.shortest_digits_ne_zero`: it is not zero, unless the magnitude is.
* `Binary64.abs_shortest_sub_le`: it differs from the magnitude by at most half a step.
-/

namespace Admission

-- Powers of natural numbers are the core library's, whatever else is in scope.
attribute [local instance (high)] instPowNat

namespace Decimal

/-- The rational number that a decimal stands for. -/
def value (d : Decimal) : ℚ := d.digits * 10 ^ d.exponent

theorem den_pos (d : Decimal) : 0 < d.den := Nat.pow_pos (by decide)

theorem value_eq_div (d : Decimal) : d.value = d.num / d.den := by
  rw [value, num, den, Nat.cast_mul, Nat.cast_pow, Nat.cast_pow, Nat.cast_ofNat, mul_div_assoc]
  congr 1
  rcases le_total 0 d.exponent with up | down
  · rw [Int.toNat_of_nonpos (neg_nonpos.2 up), ← zpow_natCast, Int.toNat_of_nonneg up]
    simp
  · rw [Int.toNat_of_nonpos down, ← zpow_natCast (10 : ℚ) (-d.exponent).toNat,
      Int.toNat_of_nonneg (neg_nonneg.2 down)]
    simp

theorem value_stripZeros (fuel : ℕ) (d : Decimal) : (d.stripZeros fuel).value = d.value := by
  induction fuel generalizing d with
  | zero => rfl
  | succ fuel ih =>
    rw [stripZeros]
    split
    case isTrue zero =>
      obtain ⟨k, hk⟩ := Nat.dvd_of_mod_eq_zero zero.2
      rw [ih, value, value, hk, Nat.mul_div_cancel_left k (by decide), zpow_add₀ (by norm_num)]
      push_cast
      ring
    case isFalse => rfl

end Decimal

/-- A quotient is rounded to one of its two neighbours. -/
theorem roundDiv_eq (num den : ℕ) : roundDiv num den = num / den ∨ roundDiv num den = num / den + 1 := by
  rw [roundDiv]
  split
  · exact .inl rfl
  · exact .inr rfl

namespace Binary64

/-- The decimal lies between the two ends of the reals that round to a magnitude. -/
def Near (units : ℕ) (d : Decimal) : Prop :=
  (quadLow units : ℚ) ≤ 4 * (d.value * unitScale) ∧ 4 * (d.value * unitScale) ≤ quadHigh units

variable {units : ℕ} {d : Decimal}

/-- The two ends of the reals that round to a magnitude belong to them when the significand is even. -/
theorem ends_of_roundsTo (rounds : roundsTo units d = true) :
    quadLow units * d.den ≤ 4 * unitsInOne * d.num ∧ 4 * unitsInOne * d.num ≤ quadHigh units * d.den ∧
      (units / 2 ^ (units.log2 - 52) % 2 = 0 ∨
        quadLow units * d.den < 4 * unitsInOne * d.num ∧ 4 * unitsInOne * d.num < quadHigh units * d.den) := by
  rw [roundsTo] at rounds
  split at rounds
  case isTrue even =>
    rw [Bool.and_eq_true, decide_eq_true_eq, decide_eq_true_eq] at rounds
    exact ⟨rounds.1, rounds.2, .inl even⟩
  case isFalse =>
    rw [Bool.and_eq_true, decide_eq_true_eq, decide_eq_true_eq] at rounds
    exact ⟨rounds.1.le, rounds.2.le, .inr rounds⟩

/-- A decimal that rounds to a magnitude lies between its ends. -/
theorem near_of_roundsTo (rounds : roundsTo units d = true) : Near units d := by
  have positive : (0 : ℚ) < d.den := by exact_mod_cast d.den_pos
  obtain ⟨low, high, -⟩ := ends_of_roundsTo rounds
  have scaled : 4 * (d.value * unitScale) = ((4 * unitsInOne * d.num : ℕ) : ℚ) / d.den := by
    rw [d.value_eq_div, Nat.cast_mul, Nat.cast_mul, ← unitScale]
    push_cast
    ring
  rw [Near, scaled, le_div_iff₀ positive, div_le_iff₀ positive]
  exact ⟨by exact_mod_cast low, by exact_mod_cast high⟩

/-- A rounded quotient reads back when both neighbours do. -/
theorem roundsTo_roundDiv (num den : ℕ) {e : ℤ} (below : roundsTo units ⟨num / den, e⟩ = true)
    (above : roundsTo units ⟨num / den + 1, e⟩ = true) :
    roundsTo units ⟨roundDiv num den, e⟩ = true := by
  rcases roundDiv_eq num den with down | up
  · simp only [down, below]
  · simp only [up, above]

theorem roundsTo_of_onGrid? {places : ℕ} (found : onGrid? units places = some d) :
    roundsTo units d = true := by
  rw [onGrid?] at found
  split at found
  case h_1 below above =>
    rw [← Option.some.inj found]
    exact roundsTo_roundDiv _ _ below above
  case h_2 below _ =>
    cases found
    exact below
  case h_3 _ above =>
    cases found
    exact above
  case h_4 => cases found

/-- Every magnitude is a decimal. -/
theorem value_exact (units : ℕ) : Decimal.value ⟨units * 5 ^ (1074 : ℕ), -1074⟩ * unitScale = units := by
  obtain ⟨k, hk⟩ : ∃ k : ℕ, k = 1074 := ⟨_, rfl⟩
  have exponent : (-1074 : ℤ) = -(k : ℤ) := by omega
  rw [Decimal.value, unitScale_eq hk, exponent, ← hk, zpow_neg, zpow_natCast]
  dsimp only
  rw [Nat.cast_mul, Nat.cast_pow, Nat.cast_ofNat, show (10 : ℚ) = 5 * 2 by norm_num, mul_pow]
  field_simp

/-- The exact decimal of a magnitude rounds to it. -/
theorem roundsTo_of_exact (nonzero : units ≠ 0) (exact : d.value * unitScale = units) : roundsTo units d = true := by
  have positive := d.den_pos
  have step : 2 ^ (units.log2 - 52) ≤ units :=
    (Nat.pow_le_pow_right Nat.zero_lt_two (Nat.sub_le _ _)).trans (Nat.log2_self_le nonzero)
  -- Counted in quarter units the decimal is the magnitude itself, which lies between the ends.
  have point : 4 * unitsInOne * d.num = 4 * units * d.den := by
    have scaled : unitScale * d.num = units * d.den := by
      have some : (d.den : ℚ) ≠ 0 := by exact_mod_cast positive.ne'
      rw [← exact, d.value_eq_div, mul_right_comm, div_mul_cancel₀ _ some, mul_comm]
    rw [unitScale] at scaled
    have same : unitsInOne * d.num = units * d.den := by exact_mod_cast scaled
    rw [Nat.mul_assoc, same, Nat.mul_assoc]
  have low : quadLow units < 4 * units := by
    have := Nat.two_pow_pos (units.log2 - 52)
    rw [quadLow]
    split <;> omega
  have high : 4 * units < quadHigh units := by
    have := Nat.two_pow_pos (units.log2 - 52)
    rw [quadHigh]
    omega
  have below := Nat.mul_lt_mul_of_pos_right low positive
  have above := Nat.mul_lt_mul_of_pos_right high positive
  rw [roundsTo, point]
  split <;> simp [below, above, below.le, above.le]

/-- The shortest decimal of a magnitude is found on a grid or is its exact value, without trailing zeros. -/
theorem exists_shortest_eq (nonzero : units ≠ 0) : ∃ d : Decimal, shortest units = d.stripZeros d.digits.log2 ∧
    ((∃ places, onGrid? units places = some d) ∨ d.value * unitScale = units) := by
  rw [shortest, if_neg nonzero]
  cases found : (List.range 17).findSome? fun n => onGrid? units (n + 1) with
  | none => exact ⟨_, rfl, .inr (value_exact units)⟩
  | some d =>
    obtain ⟨n, -, onGrid⟩ := List.exists_of_findSome?_eq_some found
    exact ⟨d, rfl, .inl ⟨n + 1, onGrid⟩⟩

theorem roundsTo_of_found (nonzero : units ≠ 0)
    (found : (∃ places, onGrid? units places = some d) ∨ d.value * unitScale = units) : roundsTo units d = true := by
  rcases found with ⟨places, onGrid⟩ | exact
  · exact roundsTo_of_onGrid? onGrid
  · exact roundsTo_of_exact nonzero exact

/-- The shortest decimal of a magnitude lies between its ends. -/
theorem shortest_near (nonzero : units ≠ 0) : Near units (shortest units) := by
  obtain ⟨d, same, found⟩ := exists_shortest_eq nonzero
  rw [same, Near, Decimal.value_stripZeros, ← Near]
  exact near_of_roundsTo (roundsTo_of_found nonzero found)

theorem quadLow_pos (nonzero : units ≠ 0) : 0 < quadLow units := by
  have step : 2 ^ (units.log2 - 52) ≤ units :=
    (Nat.pow_le_pow_right Nat.zero_lt_two (Nat.sub_le _ _)).trans (Nat.log2_self_le nonzero)
  rw [quadLow]
  split <;> omega

/-- The shortest decimal of a magnitude that is not zero has digits. -/
theorem shortest_digits_ne_zero (nonzero : units ≠ 0) : (shortest units).digits ≠ 0 := by
  intro none
  have low := (shortest_near nonzero).1
  rw [Decimal.value, none, Nat.cast_zero, zero_mul, zero_mul, mul_zero] at low
  exact absurd (quadLow_pos nonzero) (by exact_mod_cast low.not_gt)

/-- The shortest decimal of a magnitude differs from it by at most half a step. -/
theorem abs_shortest_sub_le (units : ℕ) :
    |(shortest units).value * unitScale - units| ≤ 2 ^ (units.log2 - 52) / 2 := by
  rcases eq_or_ne units 0 with rfl | nonzero
  · have zero : (shortest 0).value = 0 := by
      rw [shortest, if_pos rfl, Decimal.value, Nat.cast_zero, zero_mul]
    rw [zero, zero_mul, Nat.cast_zero, sub_zero, abs_zero]
    positivity
  · obtain ⟨low, high⟩ := shortest_near nonzero
    have bottom : 4 * units ≤ quadLow units + 2 * 2 ^ (units.log2 - 52) := by
      rw [quadLow]
      split <;> omega
    have bottom' : 4 * (units : ℚ) ≤ quadLow units + 2 * 2 ^ (units.log2 - 52) := by exact_mod_cast bottom
    rw [quadHigh] at high
    push_cast at high
    rw [abs_le]
    constructor <;> linarith

end Binary64

end Admission
