import Admission.Proofs.Binary64.Value

/-!
# The upper end of the doubles

A number is rounded to a finite double when it lies less than half a step above the greatest one. So no
double overflows when something is added to it that is small against that step.

## Main definitions

* `Binary64.greatest`: the greatest finite double.
* `Binary64.brink`: half a step above it.

## Main results

* `Binary64.inRange_of_lt_brink`: what is rounded to a finite double.
* `Binary64.Denotes.abs_le_greatest`, `Binary64.Denotes.inRange_add`: how far doubles reach.
* `Binary64.Denotes.add_of_small`, `sub_of_small`, `small_sub`: operations that stay finite.
-/

namespace Admission

-- Powers of natural numbers are the core library's, whatever else is in scope.
attribute [local instance (high)] instPowNat

namespace Binary64

/-- The greatest finite double. -/
@[irreducible] def greatest : ℚ := (2 ^ 53 - 1) * 2 ^ 971

/-- The number halfway between the greatest finite double and the power of two above it. -/
@[irreducible] def brink : ℚ := (2 ^ 54 - 1) * 2 ^ 970

theorem overflow_eq {k : ℕ} (h : k = 2098) : overflow = 2 ^ k := by
  rw [h, overflow, topExponent]

/-- Half a step lies between the greatest double and the brink. -/
theorem greatest_add : greatest + 2 ^ 970 = brink := by
  obtain ⟨k, hk⟩ : ∃ k, k = 970 := ⟨_, rfl⟩
  rw [greatest, brink, ← hk, show 971 = k + 1 by omega, pow_succ]
  ring

/-- The brink in units. -/
theorem brink_mul_unitScale {k : ℕ} (h : k = 2044) : brink * unitScale = (2 ^ 54 - 1) * 2 ^ k := by
  obtain ⟨e, he⟩ : ∃ e, e + 1074 = k := ⟨970, by omega⟩
  rw [brink, unitScale_eq rfl, mul_assoc, ← pow_add, ← he, show e = 970 by omega]

variable {x y : Binary64} {p q : ℚ}

/-- A number below the brink is rounded to a finite double. -/
theorem inRange_of_lt_brink (h : |q| < brink) : InRange q := by
  obtain ⟨k, hk⟩ : ∃ k, k + 1 = 2045 := ⟨2044, rfl⟩
  have top := brink_mul_unitScale (show k = 2044 by omega)
  have size := (mul_lt_mul_of_pos_right h unitScale_pos).trans_eq top
  obtain ⟨num, den, positive, same⟩ := exists_fraction (mul_nonneg (abs_nonneg q) unitScale_pos.le)
  rw [same, div_lt_iff₀ (by exact_mod_cast positive)] at size
  rw [InRange, same, nearestUnits_div positive]
  have fine : 2 * num < (2 ^ (54 : ℕ) - 1) * 2 ^ (k + 1) * den := by
    have bound : num < (2 ^ (54 : ℕ) - 1) * 2 ^ k * den := by
      have : (num : ℚ) < (((2 ^ (54 : ℕ) - 1) * 2 ^ k * den : ℕ) : ℚ) := by
        have factor : ((2 ^ (54 : ℕ) - 1 : ℕ) : ℚ) = 2 ^ 54 - 1 := by norm_num
        rwa [Nat.cast_mul, Nat.cast_mul, natCast_two_pow, factor]
      exact_mod_cast this
    calc 2 * num < 2 * ((2 ^ (54 : ℕ) - 1) * 2 ^ k * den) := by omega
      _ = (2 ^ (54 : ℕ) - 1) * 2 ^ (k + 1) * den := by rw [Nat.pow_succ]; ring
  exact (roundUnits_lt_two_pow positive fine).trans_le (two_pow_le_overflow (by omega))

/-- A number of at most 53 significant bits that reaches 2⁵² steps of a grid lies on it. -/
theorem dvd_of_two_pow_le {units k : ℕ} (few : 2 ^ (units.log2 - 52) ∣ units)
    (h : 2 ^ (52 + k) ≤ units) : 2 ^ k ∣ units := by
  have nonzero : units ≠ 0 := Nat.ne_of_gt ((Nat.two_pow_pos _).trans_le h)
  have log := (Nat.le_log2 nonzero).2 h
  exact (Nat.pow_dvd_pow 2 (show k ≤ units.log2 - 52 by omega)).trans few

/-- A number of at most 53 significant bits below 2⁵³ steps of a grid is less by a step. -/
theorem le_of_lt_two_pow {units k : ℕ} (few : 2 ^ (units.log2 - 52) ∣ units)
    (h : units < 2 ^ (53 + k)) : units ≤ (2 ^ (53 : ℕ) - 1) * 2 ^ k := by
  rcases Nat.lt_or_ge units (2 ^ (52 + k)) with less | more
  · calc units ≤ 2 ^ (52 : ℕ) * 2 ^ k := by rw [← Nat.pow_add]; exact less.le
      _ ≤ (2 ^ (53 : ℕ) - 1) * 2 ^ k := Nat.mul_le_mul_right _ (by decide)
  · obtain ⟨m, rfl⟩ := dvd_of_two_pow_le few more
    rw [Nat.pow_add, Nat.mul_comm] at h
    have below : m < 2 ^ (53 : ℕ) := Nat.lt_of_mul_lt_mul_right h
    rw [Nat.mul_comm]
    exact Nat.mul_le_mul_right _ (Nat.le_sub_one_of_lt below)

/-- No double is greater than the greatest. -/
theorem Denotes.abs_le_greatest (h : Denotes x q) : |q| ≤ greatest := by
  cases h with
  | finite negative units fits =>
    obtain ⟨k, hk⟩ : ∃ k, k = 2045 := ⟨_, rfl⟩
    have top : greatest * unitScale = (((2 ^ (53 : ℕ) - 1) * 2 ^ k : ℕ) : ℚ) := by
      have factor : ((2 ^ (53 : ℕ) - 1 : ℕ) : ℚ) = 2 ^ 53 - 1 := by norm_num
      rw [greatest, unitScale_eq rfl, mul_assoc, ← pow_add, Nat.cast_mul, natCast_two_pow, factor, hk]
    have below := fits.1
    rw [overflow_eq (show 53 + k = 2098 by omega)] at below
    rw [mul_div_assoc, abs_mul, abs_sign, one_mul, abs_of_nonneg (div_nonneg units.cast_nonneg unitScale_pos.le),
      div_le_iff₀ unitScale_pos, top]
    exact_mod_cast le_of_lt_two_pow fits.2 below

/-- What is small against the steps at the upper end can be added to any double. -/
theorem Denotes.inRange_add (h : Denotes x p) (small : |q| < 2 ^ 970) : InRange (p + q) := by
  refine inRange_of_lt_brink ?_
  calc |p + q| ≤ |p| + |q| := abs_add_le p q
    _ < greatest + 2 ^ 970 := add_lt_add_of_le_of_lt h.abs_le_greatest small
    _ = brink := greatest_add

/-! ### Finite results -/

/-- A double to which something small is added. -/
theorem Denotes.add_of_small (hx : Denotes x p) (hy : Denotes y q) (small : |q| < 2 ^ 970) :
    Denotes (x + y) (rounded (p + q)) := hx.add_of_inRange hy (hx.inRange_add small)

/-- A double from which something small is taken. -/
theorem Denotes.sub_of_small (hx : Denotes x p) (hy : Denotes y q) (small : |q| < 2 ^ 970) :
    Denotes (x - y) (rounded (p - q)) := by
  refine hx.sub_of_inRange hy ?_
  rw [sub_eq_add_neg]
  exact hx.inRange_add (by rwa [abs_neg])

theorem exists_denotes (finite : x.isFinite = true) : ∃ q, Denotes x q := by
  cases x with
  | nan => cases finite
  | infinity negative => cases finite
  | finite negative units fits => exact ⟨_, .finite negative units fits⟩

/-- Something small from which a double is taken. -/
theorem Denotes.small_sub (hx : Denotes x p) (hy : Denotes y q) (small : |p| < 2 ^ 970) :
    Denotes (x - y) (rounded (p - q)) := by
  refine hx.sub_of_inRange hy ?_
  rw [sub_eq_neg_add]
  exact hy.neg.inRange_add small

theorem isFinite_neg (finite : x.isFinite = true) : x.neg.isFinite = true :=
  have ⟨_, hx⟩ := exists_denotes finite
  hx.neg.isFinite

theorem neg_nearest (negative : Bool) (num den : ℕ) :
    (nearest negative num den).neg = nearest (!negative) num den := by
  rw [nearest, nearest, ofUnits, ofUnits]
  split <;> rfl

end Binary64

end Admission
