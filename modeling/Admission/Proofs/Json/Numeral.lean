import Admission.Json.Numeral
import Admission.Proofs.Binary64.Range

/-!
# The doubles of numerals

A numeral that is read as a double gives a finite one, or none at all if it is too large. The digits that
are kept make a number no larger than the numeral, and each of the three roundings adds at most a factor
to it; so a numeral that is smaller than the brink by these factors has a double.

## Main definitions

* `Json.Numeral.magnitude`: the rational number that a numeral spells, without its sign.
* `Json.Number.toDouble`: a number as a double.

## Main results

* `Json.Numeral.isFinite_of_double?`: no numeral has a double that is not finite.
* `Json.Numeral.isSome_double?`: which numerals have a double.
* `Json.Numeral.isFinite_toDouble`: the value of every numeral is finite as a double.
-/

namespace Admission.Json

open Binary64

-- Powers of natural numbers are the core library's, whatever else is in scope.
attribute [local instance (high)] instPowNat

namespace Numeral

/-! ### Digits -/

theorem foldl_digits (kept : ℕ) (digits : List ℕ) :
    digits.foldl (fun n d => n * 10 + d) kept = kept * 10 ^ digits.length + ofDigits digits := by
  induction digits generalizing kept with
  | nil => simp [ofDigits]
  | cons d digits ih =>
    rw [ofDigits, List.foldl_cons, ih, List.foldl_cons, ih, List.length_cons, Nat.pow_succ]
    ring

theorem ofDigits_cons (d : ℕ) (digits : List ℕ) :
    ofDigits (d :: digits) = d * 10 ^ digits.length + ofDigits digits := by
  rw [ofDigits, List.foldl_cons, foldl_digits, Nat.zero_mul, Nat.zero_add]

theorem ofDigits_append (a b : List ℕ) :
    ofDigits (a ++ b) = ofDigits a * 10 ^ b.length + ofDigits b := by
  rw [ofDigits, List.foldl_append, foldl_digits]
  rfl

/-- Digits that fit 64 bits together with what is kept are all absorbed. -/
theorem absorb_of_lt {kept : ℕ} {digits : List ℕ}
    (fits : kept * 10 ^ digits.length + ofDigits digits < 2 ^ (64 : ℕ)) :
    absorb kept digits = (kept * 10 ^ digits.length + ofDigits digits, 0) := by
  induction digits generalizing kept with
  | nil => simp [absorb, ofDigits]
  | cons d digits ih =>
    have split : kept * 10 ^ (d :: digits).length + ofDigits (d :: digits) =
        (kept * 10 + d) * 10 ^ digits.length + ofDigits digits := by
      rw [ofDigits_cons, List.length_cons, Nat.pow_succ]
      ring
    rw [split] at fits ⊢
    have first : kept * 10 + d < 2 ^ (64 : ℕ) := by
      have : kept * 10 + d ≤ (kept * 10 + d) * 10 ^ digits.length :=
        Nat.le_mul_of_pos_right _ (Nat.pow_pos (by decide))
      omega
    rw [absorb, if_pos first, ih fits]

/-- What is absorbed falls short of what was to be, and still fits 64 bits. -/
theorem absorb_le (kept : ℕ) (digits : List ℕ) :
    (absorb kept digits).1 * 10 ^ (absorb kept digits).2 ≤ kept * 10 ^ digits.length + ofDigits digits ∧
      (absorb kept digits).2 ≤ digits.length ∧
      (kept < 2 ^ (64 : ℕ) → (absorb kept digits).1 < 2 ^ (64 : ℕ)) := by
  induction digits generalizing kept with
  | nil => simp [absorb]
  | cons d digits ih =>
    rw [absorb]
    split
    case isTrue fits =>
      obtain ⟨value, length, word⟩ := ih (kept * 10 + d)
      refine ⟨value.trans_eq ?_, length.trans (Nat.le_succ _), fun _ => word fits⟩
      rw [ofDigits_cons, List.length_cons, Nat.pow_succ]
      ring
    case isFalse => exact ⟨Nat.le_add_right _ _, le_refl _, id⟩

/-! ### Scaling -/

theorem ten_pow_lt_brink : (10 : ℚ) ^ 308 < brink := by
  -- The exponents are kept as variables, so that only the kernel evaluates the powers.
  obtain ⟨n, hn⟩ : ∃ n, n = 308 := ⟨_, rfl⟩
  obtain ⟨k, hk⟩ : ∃ k, k = 970 := ⟨_, rfl⟩
  have small : 10 ^ n < (2 ^ (54 : ℕ) - 1) * 2 ^ k := by
    subst hn hk
    decide +kernel
  have cast : ((10 ^ n : ℕ) : ℚ) < (((2 ^ (54 : ℕ) - 1) * 2 ^ k : ℕ) : ℚ) := Nat.cast_lt.2 small
  have factor : ((2 ^ (54 : ℕ) - 1 : ℕ) : ℚ) = 2 ^ 54 - 1 := by norm_num
  rw [Nat.cast_mul, natCast_two_pow, factor, Nat.cast_pow] at cast
  rw [brink, ← hn, ← hk]
  exact_mod_cast cast

/-- The powers of ten up to 10³⁰⁸ are rounded to finite doubles. -/
theorem denotes_tenTo {k : ℕ} (small : k ≤ 308) : Denotes (tenTo k) (rounded (10 ^ k)) := by
  have exact : (((1 * 10 ^ k : ℕ) : ℚ) / (1 : ℕ)) = 10 ^ k := by
    rw [Nat.one_mul, Nat.cast_one, div_one, Nat.cast_pow]
    rfl
  have range : InRange ((10 : ℚ) ^ k) := by
    refine inRange_of_lt_brink (lt_of_le_of_lt ?_ ten_pow_lt_brink)
    rw [abs_of_nonneg (by positivity)]
    exact pow_le_pow_right₀ (by norm_num) small
  have denoted : Denotes (nearest false (1 * 10 ^ k) 1) (rounded ((1 * 10 ^ k : ℕ) / (1 : ℕ))) :=
    denotes_nearest_of_inRange Nat.one_pos (exact.symm ▸ range)
  rw [exact] at denoted
  have near : ¬(400 : ℤ) < k := by omega
  have far : ¬(k : ℤ) < -400 - ((1 : ℕ).log2 : ℤ) := by omega
  have num : Decimal.num ⟨1, k⟩ = 1 * 10 ^ k := by rw [Decimal.num, Int.toNat_natCast]
  have den : Decimal.den ⟨1, k⟩ = 1 := by
    rw [Decimal.den, Int.toNat_of_nonpos (by simp), Nat.pow_zero]
  rwa [tenTo, ofDecimal, if_neg Nat.one_ne_zero, if_neg near, if_neg far, num, den]

theorem one_le_rounded_ten_pow (k : ℕ) : 1 ≤ rounded (10 ^ k) :=
  rounded_one ▸ rounded_mono (one_le_pow₀ (by norm_num))

/-- A finite double divided by a power of ten is finite. -/
theorem isFinite_div_tenTo {x : Binary64} {k : ℕ} (finite : x.isFinite = true) (small : k ≤ 308) :
    (x / tenTo k).isFinite = true := by
  obtain ⟨p, hx⟩ := exists_denotes finite
  have one := one_le_rounded_ten_pow k
  have positive : 0 < rounded (10 ^ k) := one_pos.trans_le one
  refine (hx.div_of_inRange (denotes_tenTo small) positive.ne' (hx.inRange.mono ?_)).isFinite
  rw [abs_div, abs_of_pos positive]
  exact div_le_self (abs_nonneg p) one

/-- Scaling a finite double gives a finite one, if any. -/
theorem isFinite_scale {fuel : ℕ} {x y : Binary64} {e : ℤ} (finite : x.isFinite = true)
    (scaled : scale fuel x e = some y) : y.isFinite = true := by
  fun_induction scale fuel x e with
  | case1 _ _ _ _ _ product stays =>
    exact Option.some.inj scaled ▸ stays
  | case3 _ _ _ near =>
    cases scaled
    exact isFinite_div_tenTo finite near
  | case4 | case6 =>
    cases scaled
    rfl
  | case7 _ _ _ _ _ _ ih => exact ih (isFinite_div_tenTo finite (le_refl _)) scaled
  | case2 | case5 => cases scaled

/-- Scaling down always gives a double. -/
theorem isSome_scale_of_neg {fuel : ℕ} {x : Binary64} {e : ℤ} (down : e < 0) :
    (scale fuel x e).isSome = true := by
  fun_induction scale fuel x e with
  | case1 _ _ _ _ up | case2 _ _ _ _ up => omega
  | case5 _ _ _ _ _ up => omega
  | case3 | case4 | case6 => rfl
  | case7 _ _ far _ _ _ ih => exact ih (by omega)

theorem brink_le_ten_pow : brink ≤ 10 ^ 309 := by
  obtain ⟨n, hn⟩ : ∃ n, n = 309 := ⟨_, rfl⟩
  obtain ⟨k, hk⟩ : ∃ k, k = 970 := ⟨_, rfl⟩
  have large : (2 ^ (54 : ℕ) - 1) * 2 ^ k ≤ 10 ^ n := by
    subst hn hk
    decide +kernel
  have cast : (((2 ^ (54 : ℕ) - 1) * 2 ^ k : ℕ) : ℚ) ≤ ((10 ^ n : ℕ) : ℚ) := Nat.cast_le.2 large
  have factor : ((2 ^ (54 : ℕ) - 1 : ℕ) : ℚ) = 2 ^ 54 - 1 := by norm_num
  rw [Nat.cast_mul, natCast_two_pow, factor, Nat.cast_pow] at cast
  rw [brink, ← hn, ← hk]
  exact_mod_cast cast

/-- The digits and the power of ten are rounded before they are multiplied. -/
theorem isFinite_ofNat_mul_tenTo {kept k : ℕ} (word : kept < 2 ^ (64 : ℕ)) (near : k ≤ 308)
    (small : kept * 10 ^ k * (1 + roundoff) ^ 2 < brink) : (ofNat kept * tenTo k).isFinite = true := by
  have size : (kept : ℚ) ≤ 2 ^ 64 := by exact_mod_cast word.le
  have digits := denotes_ofNat (le_ample size (by omega))
  have low := rounded_nonneg (q := (kept : ℚ)) kept.cast_nonneg
  have low' := one_pos.le.trans (one_le_rounded_ten_pow k)
  have high := (rounded_bounds kept.cast_nonneg (onGrid_natCast kept).abs_rounded_sub_le).2
  have high' := (rounded_bounds (Nat.cast_nonneg _) (onGrid_natCast (10 ^ k)).abs_rounded_sub_le).2
  rw [Nat.cast_pow, Nat.cast_ofNat] at high'
  refine (digits.mul_of_inRange (denotes_tenTo near) (inRange_of_lt_brink (lt_of_le_of_lt ?_ small))).isFinite
  rw [abs_of_nonneg (mul_nonneg low low')]
  calc rounded kept * rounded (10 ^ k) ≤ kept * (1 + roundoff) * (10 ^ k * (1 + roundoff)) :=
        mul_le_mul high high' low' (low.trans high)
    _ = kept * 10 ^ k * (1 + roundoff) ^ 2 := by ring

/-- Only zero stays below the brink with so large an exponent. -/
theorem eq_zero_of_far {kept k : ℕ} (far : 308 < k) (small : kept * 10 ^ k * (1 + roundoff) ^ 2 < brink) :
    kept = 0 := by
  by_contra some
  have digits : (1 : ℚ) ≤ kept := by exact_mod_cast Nat.one_le_iff_ne_zero.2 some
  have factor : 1 ≤ (1 + roundoff) ^ 2 := one_le_pow₀ (by linarith [roundoff_pos])
  refine small.not_ge ?_
  calc brink ≤ 10 ^ 309 := brink_le_ten_pow
    _ ≤ 10 ^ k := pow_le_pow_right₀ (by norm_num) far
    _ ≤ kept * 10 ^ k := le_mul_of_one_le_left (by positivity) digits
    _ ≤ kept * 10 ^ k * (1 + roundoff) ^ 2 := le_mul_of_one_le_right (by positivity) factor

/-- A number of 64 bits can be scaled up as far as the result stays below the brink by two roundings. -/
theorem isSome_scale {kept : ℕ} (word : kept < 2 ^ (64 : ℕ)) {e : ℤ} (up : 0 ≤ e)
    (small : kept * 10 ^ e.toNat * (1 + roundoff) ^ 2 < brink) :
    (scale 3 (ofNat kept) e).isSome = true := by
  obtain ⟨k, rfl⟩ := Int.eq_ofNat_of_zero_le up
  rw [Int.toNat_natCast] at small
  rw [scale, Int.natAbs_natCast]
  by_cases near : k ≤ 308
  · rw [if_pos near, if_pos up]
    have product := isFinite_ofNat_mul_tenTo word near small
    rw [if_pos product]
    rfl
  · rw [if_neg near]
    obtain rfl := eq_zero_of_far (not_le.1 near) small
    have zero : ofNat 0 = zero false := by decide +kernel
    rw [zero, if_pos rfl]
    rfl

/-! ### Doubles -/

/-- How far the exponent moves the point. -/
def shift (n : Numeral) : ℤ :=
  match n.exponent with
  | none => 0
  | some (true, digits) => -ofDigits digits
  | some (false, digits) => ofDigits digits

/-- The number that a numeral spells, without its sign. -/
def magnitude (n : Numeral) : ℚ :=
  ofDigits (n.whole ++ n.fraction.getD []) * 10 ^ (n.shift - (n.fraction.getD []).length)

/-- A numeral with a point or an exponent is read as a double. -/
theorem value?_eq_double? {n : Numeral} (parts : n.fraction.isSome ∨ n.exponent.isSome) :
    n.value? = n.double?.map .fraction := by
  obtain ⟨negative, whole, fraction, exponent⟩ := n
  cases fraction with
  | none =>
    cases exponent with
    | none => simp at parts
    | some e => rfl
  | some digits => rfl

/-- Of a numeral whose digits before the point all fit 64 bits, those after it are taken as far as they fit, and
what is taken is scaled. -/
theorem exists_double?_eq {n : Numeral} (whole : ofDigits n.whole < 2 ^ (64 : ℕ)) :
    ∃ kept unused, absorb (ofDigits n.whole) (n.fraction.getD []) = (kept, unused) ∧
      n.double? = (scale 3 (ofNat kept) (n.shift - (n.fraction.getD []).length + unused)).map
        (if n.negative then neg else id) := by
  -- Of the digits before the point none is left out.
  have head : absorb 0 n.whole = (ofDigits n.whole, 0) := by
    have fits : 0 * 10 ^ n.whole.length + ofDigits n.whole < 2 ^ (64 : ℕ) := by simpa using whole
    simpa using absorb_of_lt fits
  have length := (absorb_le (ofDigits n.whole) (n.fraction.getD [])).2.1
  cases taken : absorb (ofDigits n.whole) (n.fraction.getD []) with
  | mk kept unused =>
    refine ⟨kept, unused, rfl, ?_⟩
    rw [taken] at length
    -- A digit that is left out behind the point takes no place of its own.
    have places : n.shift + (0 : ℕ) - ((n.fraction.getD []).length - unused : ℕ) =
        n.shift - (n.fraction.getD []).length + unused := by
      dsimp only at length
      omega
    rw [double?, head]
    dsimp only
    rw [taken]
    change (if n.negative then (scale 3 (ofNat kept) (n.shift + (0 : ℕ) -
        ((n.fraction.getD []).length - unused : ℕ))).map neg
      else scale 3 (ofNat kept) (n.shift + (0 : ℕ) -
        ((n.fraction.getD []).length - unused : ℕ))) = _
    rw [places]
    cases n.negative with
    | true => rfl
    | false => simp

/-- What is taken of the digits of a numeral, where the exponent puts it. -/
theorem mul_ten_zpow (n : Numeral) (kept unused : ℕ) :
    (kept : ℚ) * 10 ^ (n.shift - (n.fraction.getD []).length + unused) =
      kept * 10 ^ unused * 10 ^ (n.shift - (n.fraction.getD []).length) := by
  rw [zpow_add₀ (by norm_num), zpow_natCast]
  ring

/-- A numeral of a finite magnitude, of which all digits before the point fit 64 bits, has a double. -/
theorem isSome_double? {n : Numeral} (whole : ofDigits n.whole < 2 ^ (64 : ℕ))
    (small : n.magnitude * (1 + roundoff) ^ 2 < brink) : n.double?.isSome = true := by
  obtain ⟨kept, unused, taken, double⟩ := exists_double?_eq whole
  obtain ⟨value, -, word⟩ := absorb_le (ofDigits n.whole) (n.fraction.getD [])
  rw [taken] at value word
  rw [double, Option.isSome_map]
  rcases lt_or_ge (n.shift - (n.fraction.getD []).length + unused) 0 with down | up
  · exact isSome_scale_of_neg down
  · refine isSome_scale (word whole) up (lt_of_le_of_lt ?_ small)
    refine mul_le_mul_of_nonneg_right ?_ (by positivity)
    have power : (10 : ℚ) ^ (n.shift - (n.fraction.getD []).length + unused).toNat =
        10 ^ (n.shift - (n.fraction.getD []).length + unused) := by
      rw [← zpow_natCast, Int.toNat_of_nonneg up]
    have fewer : (kept * 10 ^ unused : ℚ) ≤ ofDigits (n.whole ++ n.fraction.getD []) := by
      rw [ofDigits_append]
      exact_mod_cast value
    rw [power, mul_ten_zpow, magnitude]
    exact mul_le_mul_of_nonneg_right fewer (zpow_nonneg (by norm_num) _)

theorem isFinite_ofNat {n : ℕ} (word : n < 2 ^ (64 : ℕ)) : (ofNat n).isFinite = true := by
  have size : (n : ℚ) ≤ 2 ^ 64 := by exact_mod_cast word.le
  exact (denotes_ofNat (le_ample size (by omega))).isFinite

/-- The double of a numeral is finite. -/
theorem isFinite_of_double? {n : Numeral} {x : Binary64} (read : n.double? = some x) :
    x.isFinite = true := by
  have head := (absorb_le 0 n.whole).2.2 (by decide)
  have kept := isFinite_ofNat ((absorb_le (absorb 0 n.whole).1 (n.fraction.getD [])).2.2 head)
  rw [double?] at read
  dsimp only at read
  split at read
  · obtain ⟨y, scaled, rfl⟩ := Option.map_eq_some_iff.1 read
    exact isFinite_neg (isFinite_scale kept scaled)
  · exact isFinite_scale kept read

end Numeral

/-- A number as a double. -/
def Number.toDouble : Number → Binary64
  | .count value => ofNat value.toNat
  | .negative magnitude => nearest true magnitude 1
  | .fraction value => value

/-- The value of a numeral is finite as a double. -/
theorem Numeral.isFinite_toDouble {n : Numeral} {v : Number} (value : n.value? = some v) :
    v.toDouble.isFinite = true := by
  -- A whole number is finite for its size, anything else because it was read.
  have fraction : n.double?.map .fraction = some v → v.toDouble.isFinite = true := by
    intro read
    obtain ⟨x, double, rfl⟩ := Option.map_eq_some_iff.1 read
    exact isFinite_of_double? double
  rw [Numeral.value?] at value
  split at value
  · dsimp only at value
    split at value
    · split at value
      case isTrue small =>
        cases value
        rw [Number.toDouble, ← Bool.not_false, ← neg_nearest]
        exact isFinite_neg (isFinite_ofNat (small.2.trans_lt (by decide)))
      case isFalse => exact fraction value
    · split at value
      · cases value
        exact isFinite_ofNat (UInt64.toNat_lt _)
      · exact fraction value
  · exact fraction value

end Admission.Json
