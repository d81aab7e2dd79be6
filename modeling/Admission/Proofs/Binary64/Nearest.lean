import Admission.Proofs.Binary64.Rounding
import Mathlib.Algebra.Order.Field.Basic
import Mathlib.Algebra.Order.Ring.Rat
import Mathlib.Data.Rat.Cast.Order
import Mathlib.Tactic.FieldSimp
import Mathlib.Tactic.GCongr
import Mathlib.Tactic.Linarith
import Mathlib.Tactic.NormNum
import Mathlib.Tactic.Positivity
import Mathlib.Tactic.Ring

/-!
# Rounding rational numbers

A rational number is rounded to the nearest double, as if doubles had no upper end. Rounding keeps order
and keeps what is a double already. It moves a number by at most half a step: by a factor of 1 ± 2⁻⁵³,
unless the number is tiny and not a whole number of units.

## Main definitions

* `Binary64.rounded`: the number rounded to the doubles.
* `Binary64.OnGrid`: the number is a whole number of units, as sums and differences of doubles are.

## Main results

* `Binary64.rounded_mono`: rounding keeps order.
* `Binary64.rounded_units`, `Binary64.rounded_natCast`: what rounding keeps.
* `Binary64.abs_rounded_sub_le_of_lt`, `Binary64.abs_rounded_sub_le`,
  `Binary64.OnGrid.abs_rounded_sub_le`: how far rounding moves a number.
-/

namespace Admission

-- Powers of natural numbers are the core library's, whatever else is in scope.
attribute [local instance (high)] instPowNat

namespace Binary64

/-! ### Rounding rational numbers -/

-- Nothing unfolds this number: tactics would compute its 324 digits.
/-- How many units there are in one, as a rational number. -/
@[irreducible] def unitScale : ℚ := unitsInOne

/-- The largest relative error of a rounding. -/
def roundoff : ℚ := 1 / 2 ^ 53

/-- The magnitude from which on every double has 53 significant bits. -/
def leastNormal : ℚ := 2 ^ 52 / unitScale

/-- The whole number of units nearest to a magnitude that is given in units. -/
def nearestUnits (q : ℚ) : ℕ := roundUnits q.num.natAbs q.den

/-- The number rounded to the doubles, as if these had no upper end. -/
def rounded (q : ℚ) : ℚ := (if q < 0 then -1 else 1) * nearestUnits (q * unitScale) / unitScale

/-- The number is a whole number of units. -/
def OnGrid (q : ℚ) : Prop := ∃ n : ℤ, q = n / unitScale

theorem natCast_two_pow (k : ℕ) : ((2 ^ k : ℕ) : ℚ) = 2 ^ k := by
  push_cast
  rfl

theorem unitScale_eq {k : ℕ} (h : k = 1074) : unitScale = 2 ^ k := by
  rw [h, ← natCast_two_pow, unitScale, unitsInOne]

theorem unitScale_pos : 0 < unitScale := by
  rw [unitScale_eq rfl]
  positivity

theorem roundoff_pos : 0 < roundoff := by
  rw [roundoff]
  positivity

theorem leastNormal_le {q : ℚ} {k : ℕ} (h : 1 ≤ q * 2 ^ k) (small : k ≤ 1022) : leastNormal ≤ q := by
  rw [leastNormal, div_le_iff₀ unitScale_pos, unitScale_eq rfl]
  calc (2 : ℚ) ^ 52 = 1 * 2 ^ 52 := (one_mul _).symm
    _ ≤ q * 2 ^ k * 2 ^ 52 := by gcongr
    _ = q * 2 ^ (k + 52) := by rw [mul_assoc, pow_add]
    _ ≤ q * 2 ^ 1074 := by
      have : 0 < q := pos_of_mul_pos_left (one_pos.trans_le h) (by positivity)
      gcongr
      · exact one_le_two
      · omega

theorem exists_fraction {q : ℚ} (nonneg : 0 ≤ q) : ∃ num den : ℕ, 0 < den ∧ q = num / den :=
  ⟨q.num.toNat, q.den, q.den_pos, by
    have same : ((q.num.toNat : ℤ) : ℚ) = q.num := by
      rw [Int.toNat_of_nonneg (Rat.num_nonneg.2 nonneg)]
    rw [← Int.cast_natCast, same, Rat.num_div_den]⟩

/-- Rounding depends on the value of the fraction alone. -/
theorem nearestUnits_div {num den : ℕ} (positive : 0 < den) :
    nearestUnits ((num : ℚ) / den) = roundUnits num den := by
  generalize hq : (num : ℚ) / den = q
  have nonneg : 0 ≤ q := hq ▸ by positivity
  have magnitude : ((q.num.natAbs : ℕ) : ℚ) = q.num := by
    rw [← Int.cast_natCast, Int.natAbs_of_nonneg (Rat.num_nonneg.2 nonneg)]
  have cross : q.num.natAbs * den = num * q.den := by
    have den_ne : (den : ℚ) ≠ 0 := by positivity
    have qden_ne : (q.den : ℚ) ≠ 0 := by exact_mod_cast q.den_ne_zero
    have fractions : (num : ℚ) / den = q.num / q.den := hq.trans q.num_div_den.symm
    rw [div_eq_div_iff den_ne qden_ne] at fractions
    exact_mod_cast (show ((q.num.natAbs : ℕ) : ℚ) * den = num * q.den by rw [magnitude, fractions])
  -- Two fractions of one value are each no larger than the other.
  exact le_antisymm (roundUnits_mono q.den_pos positive cross.le)
    (roundUnits_mono positive q.den_pos cross.ge)

theorem nearestUnits_neg (q : ℚ) : nearestUnits (-q) = nearestUnits q := by
  simp [nearestUnits]

theorem nearestUnits_mono {p q : ℚ} (nonneg : 0 ≤ p) (h : p ≤ q) :
    nearestUnits p ≤ nearestUnits q := by
  obtain ⟨num, den, positive, rfl⟩ := exists_fraction nonneg
  obtain ⟨num', den', positive', rfl⟩ := exists_fraction (nonneg.trans h)
  rw [nearestUnits_div positive, nearestUnits_div positive']
  rw [div_le_div_iff₀ (by positivity) (by positivity)] at h
  exact roundUnits_mono positive positive' (by exact_mod_cast h)

theorem nearestUnits_natCast {n : ℕ} (few : 2 ^ (n.log2 - 52) ∣ n) : nearestUnits n = n := by
  have : nearestUnits ((n : ℚ) / (1 : ℕ)) = roundUnits n 1 := nearestUnits_div Nat.one_pos
  rw [Nat.cast_one, div_one] at this
  rw [this]
  simpa using roundUnits_mul Nat.one_pos few

/-- Rounding moves a fraction by at most half a step. -/
theorem abs_nearestUnits_div_sub_le {num den : ℕ} (positive : 0 < den) :
    |(nearestUnits ((num : ℚ) / den) : ℚ) - num / den| ≤ (stepAt num den : ℚ) / 2 := by
  have den_pos : (0 : ℚ) < den := by exact_mod_cast positive
  have upper : 2 * (roundUnits num den * den : ℚ) ≤ 2 * num + den * stepAt num den := by
    exact_mod_cast (roundUnits_near positive).1
  have lower : 2 * (num : ℚ) ≤ 2 * (roundUnits num den * den) + den * stepAt num den := by
    exact_mod_cast (roundUnits_near positive).2
  rw [nearestUnits_div positive, abs_le, neg_le_sub_iff_le_add, sub_le_iff_le_add]
  rw [div_le_iff₀ den_pos, div_add_div _ _ two_ne_zero den_pos.ne', le_div_iff₀ (by positivity)]
  constructor <;> linarith

/-- Rounding moves a magnitude of less than 2⁵³ steps of a grid by at most half a step. -/
theorem abs_nearestUnits_sub_le {q : ℚ} {k : ℕ} (nonneg : 0 ≤ q) (h : q < 2 ^ (53 + k)) :
    |(nearestUnits q : ℚ) - q| ≤ 2 ^ k / 2 := by
  obtain ⟨num, den, positive, rfl⟩ := exists_fraction nonneg
  rw [div_lt_iff₀ (by positivity)] at h
  have step : stepAt num den ≤ 2 ^ k := stepAt_le positive (by exact_mod_cast h)
  have step : (stepAt num den : ℚ) ≤ 2 ^ k := by exact_mod_cast step
  exact (abs_nearestUnits_div_sub_le positive).trans (by gcongr)

/-- From 2⁵² units on, rounding moves a magnitude by at most a factor of 1 ± 2⁻⁵³. -/
theorem abs_nearestUnits_sub_le_mul {q : ℚ} (h : 2 ^ 52 ≤ q) :
    |(nearestUnits q : ℚ) - q| ≤ q * roundoff := by
  obtain ⟨num, den, positive, rfl⟩ := exists_fraction (le_trans (by positivity) h)
  have den_pos : (0 : ℚ) < den := by exact_mod_cast positive
  rw [le_div_iff₀ den_pos] at h
  have step : 2 ^ (52 : ℕ) * (den * stepAt num den) ≤ num :=
    mul_stepAt_le positive (by exact_mod_cast h)
  have step : (2 : ℚ) ^ 52 * (den * stepAt num den) ≤ num := by exact_mod_cast step
  refine (abs_nearestUnits_div_sub_le positive).trans ?_
  rw [roundoff, div_mul_div_comm, div_le_div_iff₀ two_pos (by positivity)]
  linarith

/-! ### Rounding signed numbers -/

@[simp] theorem rounded_zero : rounded 0 = 0 := by
  simp [rounded, nearestUnits, roundUnits, roundDiv]

theorem rounded_neg (q : ℚ) : rounded (-q) = -rounded q := by
  rcases lt_trichotomy q 0 with negative | rfl | positive
  · simp [rounded, negative, negative.not_gt, nearestUnits_neg, neg_div]
  · simp
  · simp [rounded, positive, positive.not_gt, nearestUnits_neg, neg_div]

theorem rounded_of_nonneg {q : ℚ} (nonneg : 0 ≤ q) :
    rounded q = nearestUnits (q * unitScale) / unitScale := by
  simp [rounded, not_lt.2 nonneg]

theorem rounded_nonneg {q : ℚ} (nonneg : 0 ≤ q) : 0 ≤ rounded q := by
  rw [rounded_of_nonneg nonneg]
  exact div_nonneg (Nat.cast_nonneg _) unitScale_pos.le

theorem rounded_nonpos {q : ℚ} (nonpos : q ≤ 0) : rounded q ≤ 0 := by
  have := rounded_nonneg (neg_nonneg.2 nonpos)
  rw [rounded_neg] at this
  linarith

/-- A statement on how far rounding moves a number needs to be proved for magnitudes alone. -/
theorem abs_rounded_sub_eq (q : ℚ) : |rounded q - q| = abs (rounded |q| - |q|) := by
  rcases le_total 0 q with nonneg | nonpos
  · rw [abs_of_nonneg nonneg]
  · rw [abs_of_nonpos nonpos, rounded_neg, ← abs_neg]
    congr 1
    ring

/-- How far rounding moves a number, counted in units. -/
theorem abs_rounded_sub_eq_div (q : ℚ) :
    |rounded q - q| = |(nearestUnits (|q| * unitScale) : ℚ) - |q| * unitScale| / unitScale := by
  rw [abs_rounded_sub_eq, rounded_of_nonneg (abs_nonneg q), ← abs_of_pos unitScale_pos, ← abs_div,
    abs_of_pos unitScale_pos, sub_div, mul_div_cancel_right₀ _ unitScale_pos.ne']

/-- Rounding keeps order. -/
theorem rounded_mono : Monotone rounded := by
  have magnitudes {p q : ℚ} (nonneg : 0 ≤ p) (h : p ≤ q) : rounded p ≤ rounded q := by
    rw [rounded_of_nonneg nonneg, rounded_of_nonneg (nonneg.trans h)]
    have := nearestUnits_mono (mul_nonneg nonneg unitScale_pos.le)
      (mul_le_mul_of_nonneg_right h unitScale_pos.le)
    exact div_le_div_of_nonneg_right (by exact_mod_cast this) unitScale_pos.le
  intro p q h
  -- Numbers of one sign are compared by their magnitudes, and zero lies between the others.
  rcases le_total 0 p with nonneg | nonpos
  · exact magnitudes nonneg h
  · rcases le_total 0 q with nonneg | nonpos'
    · exact (rounded_nonpos nonpos).trans (rounded_nonneg nonneg)
    · have := magnitudes (neg_nonneg.2 nonpos') (neg_le_neg h)
      rw [rounded_neg, rounded_neg] at this
      linarith

/-- Rounding keeps a number of units that has few enough significant bits. -/
theorem rounded_units {n : ℕ} (few : 2 ^ (n.log2 - 52) ∣ n) :
    rounded ((n : ℚ) / unitScale) = n / unitScale := by
  rw [rounded_of_nonneg (div_nonneg n.cast_nonneg unitScale_pos.le),
    div_mul_cancel₀ _ unitScale_pos.ne', nearestUnits_natCast few]

/-- Rounding keeps a number of at most 53 bits, shifted by any amount. -/
theorem rounded_mul_two_pow {m : ℕ} (small : m ≤ 2 ^ (53 : ℕ)) (k : ℕ) :
    rounded (m * 2 ^ k) = m * 2 ^ k := by
  have units : (m : ℚ) * 2 ^ k = ((m * 2 ^ (k + 1074) : ℕ) : ℚ) / unitScale := by
    rw [eq_div_iff unitScale_pos.ne', Nat.cast_mul, natCast_two_pow, pow_add, unitScale_eq rfl,
      mul_assoc]
  rw [units]
  exact rounded_units (significant_mul_two_pow small (k + 1074))

/-- Rounding keeps a number of at most 53 bits, shifted back by at most 1074 bits. -/
theorem rounded_div_two_pow {m k : ℕ} (small : m ≤ 2 ^ (53 : ℕ)) (shift : k ≤ 1074) :
    rounded (m / 2 ^ k) = m / 2 ^ k := by
  have units : (m : ℚ) / 2 ^ k = ((m * 2 ^ (1074 - k) : ℕ) : ℚ) / unitScale := by
    rw [div_eq_div_iff (by positivity) unitScale_pos.ne', Nat.cast_mul, natCast_two_pow, mul_assoc,
      ← pow_add, unitScale_eq (Nat.sub_add_cancel shift)]
  rw [units]
  exact rounded_units (significant_mul_two_pow small (1074 - k))

/-- Rounding keeps the whole numbers of at most 53 bits. -/
theorem rounded_natCast {n : ℕ} (small : n ≤ 2 ^ (53 : ℕ)) : rounded n = n := by
  simpa using rounded_mul_two_pow small 0

theorem rounded_one : rounded 1 = 1 := by
  simpa using rounded_natCast (n := 1) (by decide)

theorem one_le_rounded {q : ℚ} (h : 1 ≤ q) : 1 ≤ rounded q := rounded_one.ge.trans (rounded_mono h)

/-- Rounding keeps the powers of two. -/
theorem rounded_two_pow (k : ℕ) : rounded (2 ^ k) = 2 ^ k := by
  simpa using rounded_mul_two_pow (m := 1) (by decide) k

theorem rounded_le_two_pow {q : ℚ} {k : ℕ} (h : q ≤ 2 ^ k) : rounded q ≤ 2 ^ k :=
  rounded_two_pow k ▸ rounded_mono h

theorem onGrid_rounded (q : ℚ) : OnGrid (rounded q) :=
  ⟨(if q < 0 then -1 else 1) * nearestUnits (q * unitScale), by
    rw [rounded, Int.cast_mul, Int.cast_natCast]
    split <;> simp⟩

/-- A small relative error, as a lower and an upper bound. -/
theorem rounded_bounds {q : ℚ} (nonneg : 0 ≤ q) (near : |rounded q - q| ≤ |q| * roundoff) :
    q * (1 - roundoff) ≤ rounded q ∧ rounded q ≤ q * (1 + roundoff) := by
  rw [abs_of_nonneg nonneg, abs_le] at near
  constructor <;> linarith

/-- Rounding moves a number of magnitude less than 2 ^ `k` by at most 2 ^ (`k` - 54). -/
theorem abs_rounded_sub_le_of_lt {q : ℚ} {k : ℕ} (h : |q| < 2 ^ k) :
    |rounded q - q| ≤ 2 ^ k / 2 ^ 54 := by
  -- The exponents are kept as variables, so that no power is evaluated.
  obtain ⟨e, he⟩ : ∃ e, 54 + e = 1074 := ⟨1020, rfl⟩
  have size : |q| * unitScale < 2 ^ (53 + (e + 1 + k)) := by
    calc |q| * unitScale < 2 ^ k * unitScale := mul_lt_mul_of_pos_right h unitScale_pos
      _ = 2 ^ (53 + (e + 1 + k)) := by rw [unitScale_eq he, ← pow_add]; congr 1; omega
  have near := abs_nearestUnits_sub_le (mul_nonneg (abs_nonneg q) unitScale_pos.le) size
  rw [abs_rounded_sub_eq_div, div_le_iff₀ unitScale_pos]
  refine near.trans_eq ?_
  rw [unitScale_eq he, pow_add _ 54, pow_add, pow_succ]
  field_simp

/-- Rounding moves a number that is not tiny by at most a factor of 1 ± 2⁻⁵³. -/
theorem abs_rounded_sub_le {q : ℚ} (normal : leastNormal ≤ |q|) :
    |rounded q - q| ≤ |q| * roundoff := by
  rw [leastNormal, div_le_iff₀ unitScale_pos] at normal
  rw [abs_rounded_sub_eq_div, div_le_iff₀ unitScale_pos]
  calc |(nearestUnits (|q| * unitScale) : ℚ) - |q| * unitScale| ≤ |q| * unitScale * roundoff :=
        abs_nearestUnits_sub_le_mul normal
    _ = |q| * roundoff * unitScale := mul_right_comm ..

/-! ### Whole numbers of units -/

theorem OnGrid.add {p q : ℚ} (hp : OnGrid p) (hq : OnGrid q) : OnGrid (p + q) := by
  obtain ⟨m, rfl⟩ := hp
  obtain ⟨n, rfl⟩ := hq
  exact ⟨m + n, by rw [Int.cast_add, add_div]⟩

theorem OnGrid.neg {q : ℚ} (hq : OnGrid q) : OnGrid (-q) := by
  obtain ⟨n, rfl⟩ := hq
  exact ⟨-n, by rw [Int.cast_neg, neg_div]⟩

theorem OnGrid.sub {p q : ℚ} (hp : OnGrid p) (hq : OnGrid q) : OnGrid (p - q) :=
  sub_eq_add_neg p q ▸ hp.add hq.neg

theorem onGrid_natCast (n : ℕ) : OnGrid n :=
  ⟨n * unitsInOne, by
    rw [Int.cast_mul, Int.cast_natCast, Int.cast_natCast, ← unitScale,
      mul_div_cancel_right₀ _ unitScale_pos.ne']⟩

/-- A whole number of units is kept when it is tiny, and otherwise rounded as any number is. -/
theorem OnGrid.abs_rounded_sub_le {q : ℚ} (grid : OnGrid q) :
    |rounded q - q| ≤ |q| * roundoff := by
  rcases le_total leastNormal |q| with normal | tiny
  · exact Binary64.abs_rounded_sub_le normal
  · obtain ⟨n, rfl⟩ := grid
    rw [abs_rounded_sub_eq, abs_div, abs_of_pos unitScale_pos, ← Int.cast_abs, Int.abs_eq_natAbs,
      Int.cast_natCast] at *
    have small : n.natAbs ≤ 2 ^ (52 : ℕ) := by
      rw [leastNormal, div_le_div_iff_of_pos_right unitScale_pos] at tiny
      exact_mod_cast tiny
    have few : 2 ^ (n.natAbs.log2 - 52) ∣ n.natAbs := by
      have := significant_mul_two_pow (m := n.natAbs) (by omega) 0
      rwa [Nat.pow_zero, Nat.mul_one] at this
    rw [rounded_units few, sub_self, abs_zero]
    exact mul_nonneg (div_nonneg (Nat.cast_nonneg _) unitScale_pos.le) roundoff_pos.le

end Binary64

end Admission
