import Admission.Proofs.Binary64.Decimal

/-!
# Rounding the shortest decimal

The decimal that stands for a double is rounded to the double, so it would be read as the double wherever a decimal is
rounded once. That is so when its digits fit 53 bits and its power of ten is a double; such are the decimals of
whole numbers that are not too large.

## Main definitions

* `Decimal.Short`: the digits fit 53 bits as they are spelled, and the power of ten is a double.

## Main results

* `Binary64.rounded_shortest`: the shortest decimal is rounded to the double it stands for.
* `Binary64.shortest_value_natCast`: a whole number of 53 bits has itself as its shortest decimal.
* `Binary64.short_natCast`: that decimal is short, if there is room for one more digit.
-/

namespace Admission

-- Powers of natural numbers are the core library's, whatever else is in scope.
attribute [local instance (high)] instPowNat

namespace Decimal

/-- A decimal whose digits fit 53 bits as they are spelled, and whose power of ten is a double. -/
structure Short (d : Decimal) : Prop where
  digits : d.digits * 10 ^ (d.exponent + 1).toNat ≤ 2 ^ (53 : ℕ)
  exponent : d.exponent.natAbs ≤ 22

/-- Stripped digits end in no zero. -/
theorem digits_stripZeros {fuel : ℕ} {d : Decimal} (some : d.digits ≠ 0)
    (enough : d.digits < 2 ^ (fuel + 1)) : (d.stripZeros fuel).digits % 10 ≠ 0 := by
  induction fuel generalizing d with
  | zero =>
    rw [stripZeros]
    omega
  | succ fuel ih =>
    rw [stripZeros]
    split
    case isTrue zero =>
      rw [Nat.pow_succ] at enough
      exact ih (by dsimp only; omega) (by dsimp only; omega)
    case isFalse => omega

/-- A decimal of a whole number that ends in no zero is short, if the number leaves room for one more digit. -/
theorem short_of_value_eq {d : Decimal} {n : ℕ} (last : d.digits % 10 ≠ 0) (value : d.value = n)
    (small : n * 10 ≤ 2 ^ (53 : ℕ)) : d.Short := by
  -- With a place behind the point, the digits of a whole number would end in a zero.
  have up : 0 ≤ d.exponent := by
    by_contra down
    obtain ⟨k, hk⟩ : ∃ k : ℕ, d.exponent = -(k + 1 : ℕ) := ⟨d.exponent.natAbs - 1, by omega⟩
    rw [Decimal.value, hk, zpow_neg, zpow_natCast, ← div_eq_mul_inv, div_eq_iff (by positivity)] at value
    have whole : d.digits = n * 10 ^ (k + 1) := by exact_mod_cast value
    rw [whole, Nat.pow_succ, ← Nat.mul_assoc, Nat.mul_mod_left] at last
    exact last rfl
  obtain ⟨k, hk⟩ := Int.eq_ofNat_of_zero_le up
  have whole : d.digits * 10 ^ k = n := by
    rw [Decimal.value, hk, zpow_natCast] at value
    exact_mod_cast value
  constructor
  · have place : (d.exponent + 1).toNat = k + 1 := by omega
    rwa [place, Nat.pow_succ, ← Nat.mul_assoc, whole]
  · rw [hk, Int.natAbs_natCast]
    by_contra large
    have power : 10 ^ 23 ≤ 10 ^ k := Nat.pow_le_pow_right (by decide) (by omega)
    have digits : 10 ^ k ≤ d.digits * 10 ^ k := Nat.le_mul_of_pos_left _ (by omega)
    have : (2 : ℕ) ^ (53 : ℕ) < 10 ^ 23 := by decide
    omega

end Decimal

namespace Binary64

variable {n units places : ℕ} {d : Decimal}

/-! ### Rounding -/

/-- Below a power of two the step is half as wide. -/
theorem roundUnits_sub_of_boundary {den i r : ℕ} (power : units = 2 ^ (53 : ℕ) * 2 ^ i) (positive : 0 < den)
    (some : 0 < r) (less : r ≤ units * den)
    (low : (4 * units - 2 ^ (i + 1)) * den ≤ 4 * (units * den - r)) :
    roundUnits (units * den - r) den = units := by
  have bottom : (4 * units - 2 ^ (i + 1)) * den = 4 * (units * den) - 2 * (den * 2 ^ i) := by
    rw [Nat.sub_mul, Nat.pow_succ]
    ring_nf
  rw [bottom] at low
  have close : 2 * r ≤ den * 2 ^ i := by omega
  rw [power]
  exact roundUnits_mul_sub positive (by decide) le_rfl (.inr (by decide))
    ((Nat.lt_or_eq_of_le close).imp_right fun tied => ⟨tied, by decide⟩) some

/-- Elsewhere the step below a magnitude is its own step, which is one unit or leaves it more than 52 bits. -/
theorem roundUnits_sub_of_inner {den r shift : ℕ} (hs : shift = units.log2 - 52) (few : 2 ^ shift ∣ units)
    (nonzero : units ≠ 0) (inner : ¬ (0 < shift ∧ units = 2 ^ (52 + shift))) (positive : 0 < den)
    (some : 0 < r) (less : r ≤ units * den)
    (low : (4 * units - 2 * 2 ^ shift) * den ≤ 4 * (units * den - r))
    (tie : units / 2 ^ shift % 2 = 0 ∨ (4 * units - 2 * 2 ^ shift) * den < 4 * (units * den - r)) :
    roundUnits (units * den - r) den = units := by
  have step := Nat.two_pow_pos shift
  obtain ⟨k, hk⟩ := few
  rw [Nat.mul_comm] at hk
  have bottom : (4 * units - 2 * 2 ^ shift) * den = 4 * (units * den) - 2 * (den * 2 ^ shift) := by
    rw [Nat.sub_mul]
    ring_nf
  have steps : units / 2 ^ shift = k := by rw [hk, Nat.mul_div_cancel _ step]
  rw [bottom, steps] at tie
  rw [bottom] at low
  have high : k ≤ 2 ^ (53 : ℕ) := by
    have size : units < 2 ^ (53 + shift) :=
      Nat.lt_log2_self.trans_le (Nat.pow_le_pow_right Nat.two_pos (by omega))
    rw [hk, Nat.pow_add] at size
    exact (Nat.lt_of_mul_lt_mul_right size).le
  -- Where a step is more than a unit, 2⁵² of them are the boundary, which is another case.
  have coarse : shift = 0 ∨ 2 ^ (52 : ℕ) < k := by
    refine (Nat.eq_zero_or_pos shift).imp_right fun some => ?_
    have size := Nat.log2_self_le nonzero
    rw [show units.log2 = 52 + shift by omega, hk, Nat.pow_add] at size
    refine lt_of_le_of_ne (Nat.le_of_mul_le_mul_right size step) fun least => inner ⟨some, ?_⟩
    rw [hk, ← least, Nat.pow_add]
  have rest : 2 * r < den * 2 ^ shift ∨ 2 * r = den * 2 ^ shift ∧ k % 2 = 0 := by omega
  have digits : 0 < k := Nat.pos_of_ne_zero fun none => nonzero (by rw [hk, none, Nat.zero_mul])
  rw [hk]
  exact roundUnits_mul_sub positive digits high coarse rest some

/-- What lies below a magnitude, but not below the lower end of the reals that round to it, is rounded to it. -/
theorem roundUnits_sub_of_quadLow {den r : ℕ} (few : 2 ^ (units.log2 - 52) ∣ units) (nonzero : units ≠ 0)
    (positive : 0 < den) (some : 0 < r) (less : r ≤ units * den)
    (low : quadLow units * den ≤ 4 * (units * den - r))
    (tie : units / 2 ^ (units.log2 - 52) % 2 = 0 ∨ quadLow units * den < 4 * (units * den - r)) :
    roundUnits (units * den - r) den = units := by
  obtain ⟨shift, hs⟩ : ∃ shift, shift = units.log2 - 52 := ⟨_, rfl⟩
  rw [quadLow] at low tie
  rw [← hs] at few low tie
  split at low
  case isTrue boundary =>
    obtain ⟨i, rfl⟩ : ∃ i, shift = i + 1 := ⟨shift - 1, by omega⟩
    have power : units = 2 ^ (53 : ℕ) * 2 ^ i := by
      rw [boundary.2, ← Nat.pow_add]
      congr 1
      omega
    exact roundUnits_sub_of_boundary power positive some less low
  case isFalse inner =>
    rw [if_neg inner] at tie
    exact roundUnits_sub_of_inner hs few nonzero inner positive some less low tie

/-- What lies among the reals that round to a magnitude is rounded to it. -/
theorem roundUnits_of_roundsTo (few : 2 ^ (units.log2 - 52) ∣ units) (nonzero : units ≠ 0)
    (rounds : roundsTo units d = true) : roundUnits (d.num * unitsInOne) d.den = units := by
  have positive := d.den_pos
  obtain ⟨low, high, tie⟩ := ends_of_roundsTo rounds
  have point : 4 * unitsInOne * d.num = 4 * (d.num * unitsInOne) := by ring
  rw [point] at low high tie
  generalize d.num * unitsInOne = num at *
  generalize d.den = den at *
  rcases Nat.lt_or_ge num (units * den) with below | above
  · obtain ⟨r, some, less, rfl⟩ : ∃ r, 0 < r ∧ r ≤ units * den ∧ num = units * den - r :=
      ⟨units * den - num, by omega, by omega, by omega⟩
    exact roundUnits_sub_of_quadLow few nonzero positive some less low (tie.imp_right And.left)
  · obtain ⟨r, rfl⟩ := Nat.exists_eq_add_of_le above
    have top : quadHigh units * den = 4 * (units * den) + 2 * (den * 2 ^ (units.log2 - 52)) := by
      rw [quadHigh]
      ring
    rw [top] at high tie
    exact roundUnits_mul_add positive few (by omega)

/-- The shortest decimal of a double is rounded to it. -/
theorem rounded_shortest (few : 2 ^ (units.log2 - 52) ∣ units) :
    rounded (shortest units).value = units / unitScale := by
  rcases eq_or_ne units 0 with rfl | nonzero
  · rw [shortest, if_pos rfl, Decimal.value, Nat.cast_zero, zero_mul, rounded_zero, zero_div]
  · obtain ⟨d, same, found⟩ := exists_shortest_eq nonzero
    have nonneg : 0 ≤ d.value := mul_nonneg d.digits.cast_nonneg (zpow_nonneg (by norm_num) _)
    have scaled : d.value * unitScale = (d.num * unitsInOne : ℕ) / d.den := by
      rw [d.value_eq_div, Nat.cast_mul, ← unitScale]
      ring
    rw [same, Decimal.value_stripZeros, rounded_of_nonneg nonneg, scaled, nearestUnits_div d.den_pos,
      roundUnits_of_roundsTo few nonzero (roundsTo_of_found nonzero found)]

/-! ### Trailing zeros -/

/-- The shortest decimal has no trailing zeros. -/
theorem shortest_digits_mod_ne_zero (nonzero : units ≠ 0) : (shortest units).digits % 10 ≠ 0 := by
  have some := shortest_digits_ne_zero nonzero
  obtain ⟨d, same, -⟩ := exists_shortest_eq nonzero
  rw [same] at some ⊢
  refine Decimal.digits_stripZeros (fun none => some ?_) Nat.lt_log2_self
  have value : d.value = 0 := by rw [Decimal.value, none, Nat.cast_zero, zero_mul]
  rw [← Decimal.value_stripZeros d.digits.log2, Decimal.value, mul_eq_zero, Nat.cast_eq_zero] at value
  exact value.resolve_right (zpow_ne_zero _ (by norm_num))

/-! ### Whole numbers -/

theorem exponent_of_onGrid? (found : onGrid? units places = some d) : d.exponent = scale units - places := by
  rw [onGrid?] at found
  split at found
  case h_4 => cases found
  all_goals rw [← Option.some.inj found]

/-- A grid no coarser than the whole numbers has each of them on it. -/
theorem value_of_onGrid? (whole : units = n * unitsInOne) (nonzero : units ≠ 0)
    (found : onGrid? units places = some d) (fine : d.exponent ≤ 0) : d.value = n := by
  rw [exponent_of_onGrid? found] at fine
  rw [onGrid?] at found
  generalize scale units - places = e at found fine
  obtain ⟨k, rfl⟩ : ∃ k : ℕ, e = -k := ⟨e.natAbs, by omega⟩
  have num : Decimal.num ⟨1, -k⟩ = 1 := by simp [Decimal.num]
  have den : Decimal.den ⟨1, -k⟩ = 10 ^ k := by simp [Decimal.den]
  have exact : units * 10 ^ k = n * 10 ^ k * unitsInOne := by
    rw [whole]
    ring
  have value : Decimal.value ⟨n * 10 ^ k, -k⟩ = n := by
    rw [Decimal.value, zpow_neg, zpow_natCast, Nat.cast_mul, Nat.cast_pow, Nat.cast_ofNat]
    exact mul_inv_cancel_right₀ (by positivity) _
  -- The number itself is a point of the grid, and the one that is found there.
  have rounds : roundsTo units ⟨n * 10 ^ k, -k⟩ = true :=
    roundsTo_of_exact nonzero (by rw [value, whole, unitScale, Nat.cast_mul])
  rw [num, den, Nat.mul_one, exact, Nat.mul_div_cancel _ unitsInOne_pos, roundDiv_mul _ _ unitsInOne_pos,
    rounds] at found
  split at found
  case h_1 | h_2 => exact Option.some.inj found ▸ value
  case h_3 none _ => cases none
  case h_4 none _ => cases none

/-- What is found for a whole number of at most 53 bits is that number. -/
theorem value_of_found (whole : units = n * unitsInOne) (nonzero : units ≠ 0) (small : n < 2 ^ (53 : ℕ))
    (found : (∃ places, onGrid? units places = some d) ∨ d.value * unitScale = units)
    (near : |d.value * unitScale - units| ≤ 2 ^ (units.log2 - 52) / 2) : d.value = n := by
  have positive := unitScale_pos
  have scaled : (units : ℚ) = n * unitScale := by rw [whole, Nat.cast_mul, unitScale]
  rcases found with ⟨places, onGrid⟩ | exact
  · rcases le_total d.exponent 0 with fine | coarse
    · exact value_of_onGrid? whole nonzero onGrid fine
    · -- On a coarser grid it is a whole number itself, and no other lies within half a step.
      obtain ⟨k, hk⟩ := Int.eq_ofNat_of_zero_le coarse
      have value : d.value = (d.digits * 10 ^ k : ℕ) := by
        rw [Decimal.value, hk, zpow_natCast, Nat.cast_mul, Nat.cast_pow, Nat.cast_ofNat]
      have step : (2 : ℚ) ^ (units.log2 - 52) ≤ unitScale := by
        obtain ⟨e, he⟩ : ∃ e, e = 1074 := ⟨_, rfl⟩
        have size : units < 2 ^ (53 + e) := by
          rw [whole, unitsInOne, ← he, Nat.pow_add]
          exact Nat.mul_lt_mul_of_pos_right small (Nat.two_pow_pos e)
        have log := (Nat.log2_lt nonzero).2 size
        rw [unitScale_eq he]
        exact pow_le_pow_right₀ one_le_two (by omega)
      rw [value, scaled, ← sub_mul, abs_mul, abs_of_pos positive] at near
      have close : |((d.digits * 10 ^ k : ℕ) : ℚ) - n| < 1 := by
        by_contra far
        have := mul_le_mul_of_nonneg_right (not_lt.1 far) positive.le
        linarith
      have whole : |((d.digits * 10 ^ k : ℕ) : ℤ) - n| < 1 := by exact_mod_cast close
      rw [Int.abs_lt_one_iff, sub_eq_zero] at whole
      rw [value]
      exact_mod_cast whole
  · exact mul_right_cancel₀ positive.ne' (exact.trans scaled)

/-- The shortest decimal of a whole number of at most 53 bits is that number. -/
theorem shortest_value_natCast (small : n < 2 ^ (53 : ℕ)) : (shortest (n * unitsInOne)).value = n := by
  obtain ⟨units, whole⟩ : ∃ units, units = n * unitsInOne := ⟨_, rfl⟩
  rw [← whole]
  rcases eq_or_ne units 0 with rfl | nonzero
  · have none : n = 0 := (Nat.mul_eq_zero.1 whole.symm).resolve_right unitsInOne_pos.ne'
    rw [shortest, if_pos rfl, Decimal.value, Nat.cast_zero, zero_mul, none, Nat.cast_zero]
  · have near := abs_shortest_sub_le units
    obtain ⟨d, same, found⟩ := exists_shortest_eq nonzero
    rw [same, Decimal.value_stripZeros] at near ⊢
    exact value_of_found whole nonzero small found near

/-- The shortest decimal of a whole number is short, if the number leaves room for one more digit. -/
theorem short_natCast (small : n * 10 ≤ 2 ^ (53 : ℕ)) : (shortest (n * unitsInOne)).Short := by
  rcases Nat.eq_zero_or_pos n with rfl | positive
  · rw [Nat.zero_mul, shortest, if_pos rfl]
    exact ⟨by decide, by decide⟩
  · have nonzero := Nat.ne_of_gt (Nat.mul_pos positive unitsInOne_pos)
    exact Decimal.short_of_value_eq (shortest_digits_mod_ne_zero nonzero) (shortest_value_natCast (by omega)) small

end Binary64

end Admission
