import Admission.Binary64.Arithmetic
import Admission.Proofs.Binary64.Nearest
import Mathlib.Data.Rat.Floor

/-!
# What doubles stand for

A finite double stands for a rational number. An operation on doubles stands for the operation on rational
numbers followed by one rounding, as long as the exact result is not too large; comparison, minimum and
maximum are those of rational numbers.

## Main definitions

* `Binary64.Denotes`: the double is finite and stands for the rational number.
* `Binary64.InRange`: the number is rounded to a finite double.

## Main results

* `Binary64.Denotes.rounded_eq`: what a double stands for needs no rounding.
* `Binary64.Denotes.exists_eq_div`, `Binary64.Denotes.rounded_add_of_lt_one`: doubles that are large against a
  grid lie on it, and are not moved by less than a step.
* `Binary64.Denotes.add_of_inRange`, `sub_of_inRange`, `mul_of_inRange`, `div_of_inRange`: the operations,
  as far as their results are in range; `Denotes.add` and the others have a simpler condition.
* `Binary64.Denotes.le_iff`, `lt_iff`, `min`, `max`: comparison.
* `Binary64.Denotes.le_floorClamped_iff`, `Denotes.floorClamped_eq_floor`: whole parts.
* `Binary64.nan_add`, `Binary64.Denotes.infinity_add` and the like: finite doubles beside other ones.
* `Binary64.Denotes.cases_of_le`, `Binary64.Denotes.exists_between`: doubles that compare with finite ones.
-/

namespace Admission

-- Powers of natural numbers are the core library's, whatever else is in scope.
attribute [local instance (high)] instPowNat

namespace Binary64

-- It is compared with powers of two only, by `le_ample`.
/-- A magnitude up to which no rounding overflows. -/
@[irreducible] def ample : ℚ := 2 ^ 1023

theorem le_ample {q : ℚ} {k : ℕ} (h : q ≤ 2 ^ k) (small : k ≤ 1023) : q ≤ ample := by
  rw [ample]
  exact h.trans (pow_le_pow_right₀ one_le_two small)

theorem unitsInOne_pos : 0 < unitsInOne := by
  rw [unitsInOne]
  exact Nat.two_pow_pos 1074

/-- A sign as a factor. -/
def sign (negative : Bool) : ℚ := if negative then -1 else 1

/-- The double is finite and stands for the rational number. -/
inductive Denotes : Binary64 → ℚ → Prop
  | finite (negative : Bool) (units : ℕ) (fits : Fits units) :
    Denotes (.finite negative units fits) (sign negative * units / unitScale)

theorem signed_cast (negative : Bool) (units : ℕ) :
    (signed negative units : ℚ) = sign negative * units := by
  cases negative <;> simp [signed, sign]

theorem sign_xor (s t : Bool) : sign (s != t) = sign s * sign t := by
  cases s <;> cases t <;> simp [sign]

theorem sign_not (s : Bool) : sign (!s) = -sign s := by
  cases s <;> simp [sign]

theorem abs_sign (s : Bool) : |sign s| = 1 := by
  cases s <;> simp [sign]

theorem rounded_sign_mul (s : Bool) (q : ℚ) : rounded (sign s * q) = sign s * rounded q := by
  cases s <;> simp [sign, rounded_neg]

variable {x y : Binary64} {p q : ℚ}

theorem Denotes.unique (h : Denotes x p) (h' : Denotes x q) : p = q := by
  cases h
  cases h'
  rfl

theorem Denotes.onGrid (h : Denotes x q) : OnGrid q := by
  cases h with
  | finite negative units fits => exact ⟨signed negative units, by rw [signed_cast]⟩

/-- What a double stands for needs no rounding. -/
theorem Denotes.rounded_eq (h : Denotes x q) : rounded q = q := by
  cases h with
  | finite negative units fits => rw [mul_div_assoc, rounded_sign_mul, rounded_units fits.2]

theorem Denotes.isFinite (h : Denotes x q) : x.isFinite = true := by
  cases h
  rfl

theorem Denotes.isNaN (h : Denotes x q) : x.isNaN = false := by
  cases h
  rfl

/-- A double from zero up is a number of units that has few enough significant bits. -/
theorem Denotes.exists_units (h : Denotes x q) (nonneg : 0 ≤ q) :
    ∃ n : ℕ, 2 ^ (n.log2 - 52) ∣ n ∧ q = n / unitScale := by
  cases h with
  | finite negative units fits =>
    refine ⟨units, fits.2, ?_⟩
    rw [← abs_of_nonneg nonneg, mul_div_assoc, abs_mul, abs_sign, one_mul,
      abs_of_nonneg (div_nonneg units.cast_nonneg unitScale_pos.le)]

theorem sign_true_mul_div_nonpos (units : ℕ) : sign true * (units : ℚ) / unitScale ≤ 0 := by
  rw [sign, if_pos rfl, neg_one_mul, neg_div, neg_nonpos]
  exact div_nonneg units.cast_nonneg unitScale_pos.le

/-- A positive double is a number of units. -/
theorem Denotes.exists_eq_finite (h : Denotes x q) (positive : 0 < q) :
    ∃ (units : ℕ) (fits : Fits units), x = .finite false units fits ∧ q = units / unitScale := by
  cases h with
  | finite negative units fits =>
    cases negative with
    | false => exact ⟨units, fits, rfl, by rw [sign, if_neg Bool.false_ne_true, one_mul]⟩
    | true => exact absurd positive (not_lt.2 (sign_true_mul_div_nonpos units))

/-- From 2⁵² steps of a grid on, a double is a whole number of them. -/
theorem Denotes.exists_eq_div {t : ℕ} (h : Denotes x q) (shift : t ≤ 1074) (low : 2 ^ 52 / 2 ^ t ≤ q) :
    ∃ k : ℕ, q = k / 2 ^ t := by
  obtain ⟨units, few, rfl⟩ := h.exists_units (le_trans (by positivity) low)
  obtain ⟨e, he⟩ : ∃ e, e + t = 1074 := ⟨_, Nat.sub_add_cancel shift⟩
  rw [unitScale_eq he, pow_add] at low ⊢
  have size : 2 ^ (e + 52) ≤ units := by
    rw [← div_div, div_le_div_iff_of_pos_right (by positivity), le_div_iff₀ (by positivity),
      ← pow_add] at low
    rw [Nat.add_comm]
    exact_mod_cast low
  -- At this size the 52 bits below the highest one do not reach below the grid.
  have log : e + 52 ≤ units.log2 :=
    (Nat.le_log2 (Nat.ne_of_gt ((Nat.two_pow_pos _).trans_le size))).2 size
  obtain ⟨k, hk⟩ := (Nat.pow_dvd_pow 2 (show e ≤ units.log2 - 52 by omega)).trans few
  refine ⟨k, ?_⟩
  rw [hk, Nat.cast_mul, natCast_two_pow, mul_div_mul_left _ _ (by positivity)]

/-- From 2⁵³ on, adding less than one is rounded away. -/
theorem Denotes.rounded_add_of_lt_one (h : Denotes x q) (large : 2 ^ 53 ≤ q) (nonneg : 0 ≤ p) (less : p < 1) :
    rounded (q + p) = q := by
  have positive := unitScale_pos
  obtain ⟨units, few, rfl⟩ := h.exists_units (le_trans (by positivity) large)
  obtain ⟨num, den, some, same⟩ := exists_fraction (mul_nonneg nonneg positive.le)
  have some' : (0 : ℚ) < den := by exact_mod_cast some
  obtain ⟨e, he⟩ : ∃ e, e = 1074 := ⟨_, rfl⟩
  have below : num < den * 2 ^ e := by
    have : (num : ℚ) / den < 2 ^ e := by
      rw [← same, ← unitScale_eq he]
      exact mul_lt_of_lt_one_left positive less
    rw [div_lt_iff₀' some'] at this
    exact_mod_cast this
  -- At this size a step is two or more.
  have log : 53 + e ≤ units.log2 := by
    have size : 2 ^ (53 + e) ≤ units := by
      rw [le_div_iff₀ positive, unitScale_eq he, ← pow_add] at large
      exact_mod_cast large
    exact (Nat.le_log2 (Nat.ne_of_gt ((Nat.two_pow_pos _).trans_le size))).2 size
  have half : 2 * num < den * 2 ^ (units.log2 - 52) := by
    calc 2 * num < den * 2 ^ (1 + e) := by
          rw [Nat.pow_add, Nat.mul_left_comm]
          exact Nat.mul_lt_mul_of_pos_left below Nat.two_pos
      _ ≤ den * 2 ^ (units.log2 - 52) :=
        Nat.mul_le_mul_left den (Nat.pow_le_pow_right Nat.two_pos (by omega))
  have sum : ((units : ℚ) / unitScale + p) * unitScale = (units * den + num : ℕ) / den := by
    rw [add_mul, div_mul_cancel₀ _ positive.ne', same, Nat.cast_add, Nat.cast_mul, add_div,
      mul_div_cancel_right₀ _ some'.ne']
  rw [rounded_of_nonneg (add_nonneg (div_nonneg units.cast_nonneg positive.le) nonneg), sum,
    nearestUnits_div some, roundUnits_mul_add some few (.inl half)]

/-! ### The range of doubles -/

/-- The number is rounded to a finite double. -/
def InRange (q : ℚ) : Prop := nearestUnits (|q| * unitScale) < overflow

theorem InRange.mono (range : InRange q) (h : |p| ≤ |q|) : InRange p :=
  (nearestUnits_mono (mul_nonneg (abs_nonneg p) unitScale_pos.le)
    (mul_le_mul_of_nonneg_right h unitScale_pos.le)).trans_lt range

theorem inRange_sign_mul (s : Bool) : InRange (sign s * q) ↔ InRange q := by
  rw [InRange, abs_mul, abs_sign, one_mul, InRange]

theorem inRange_div_iff {num den : ℕ} (positive : 0 < den) :
    InRange ((num : ℚ) / den / unitScale) ↔ roundUnits num den < overflow := by
  have nonneg : (0 : ℚ) ≤ num / den / unitScale :=
    div_nonneg (div_nonneg num.cast_nonneg den.cast_nonneg) unitScale_pos.le
  rw [InRange, abs_of_nonneg nonneg, div_mul_cancel₀ _ unitScale_pos.ne', nearestUnits_div positive]

theorem inRange_of_le_ample (small : |q| ≤ ample) : InRange q := by
  obtain ⟨k, hk⟩ : ∃ k, k = 1023 + 1074 := ⟨_, rfl⟩
  have top : ample * unitScale = ((2 ^ k : ℕ) : ℚ) := by
    rw [natCast_two_pow, hk, pow_add, ample, unitScale_eq rfl]
  have few : 2 ^ ((2 ^ k).log2 - 52) ∣ 2 ^ k := by
    have := significant_mul_two_pow (m := 1) (Nat.one_le_two_pow) k
    rwa [Nat.one_mul] at this
  have mono := nearestUnits_mono (mul_nonneg (abs_nonneg q) unitScale_pos.le)
    (mul_le_mul_of_nonneg_right small unitScale_pos.le)
  rw [top, nearestUnits_natCast few] at mono
  calc nearestUnits (|q| * unitScale) ≤ 2 ^ k := mono
    _ < 2 ^ (k + 1) := Nat.pow_lt_pow_succ Nat.one_lt_two
    _ ≤ overflow := two_pow_le_overflow (by omega)

/-- What a double stands for is in range. -/
theorem Denotes.inRange (h : Denotes x q) : InRange q := by
  cases h with
  | finite negative units fits =>
    rw [mul_div_assoc, inRange_sign_mul, InRange,
      abs_of_nonneg (div_nonneg units.cast_nonneg unitScale_pos.le),
      div_mul_cancel₀ _ unitScale_pos.ne', nearestUnits_natCast fits.2]
    exact fits.1

/-! ### Operations -/

/-- A fraction of units that is in range is rounded to a double that stands for its rounding. -/
theorem denotes_ofUnits_of_inRange {num den : ℕ} (s : Bool) (positive : 0 < den)
    (range : InRange ((num : ℚ) / den / unitScale)) :
    Denotes (ofUnits s num den) (rounded (sign s * ((num : ℚ) / den / unitScale))) := by
  have fits := (inRange_div_iff positive).1 range
  have nonneg : (0 : ℚ) ≤ num / den / unitScale :=
    div_nonneg (div_nonneg num.cast_nonneg den.cast_nonneg) unitScale_pos.le
  have value : rounded (sign s * ((num : ℚ) / den / unitScale)) =
      sign s * (roundUnits num den : ℕ) / unitScale := by
    rw [rounded_sign_mul, rounded_of_nonneg nonneg, div_mul_cancel₀ _ unitScale_pos.ne',
      nearestUnits_div positive, mul_div_assoc]
  rw [value, ofUnits, dif_pos fits]
  exact .finite s _ _

theorem denotes_zero (s : Bool) : Denotes (zero s) 0 := by
  have := Denotes.finite s 0 fits_zero
  rwa [Nat.cast_zero, mul_zero, zero_div] at this

theorem denotes_nearest_of_inRange {num den : ℕ} (positive : 0 < den)
    (range : InRange ((num : ℚ) / den)) : Denotes (nearest false num den) (rounded (num / den)) := by
  have exact : ((num * unitsInOne : ℕ) : ℚ) / den / unitScale = num / den := by
    rw [Nat.cast_mul, ← unitScale, mul_div_right_comm, mul_div_cancel_right₀ _ unitScale_pos.ne']
  have := denotes_ofUnits_of_inRange false positive (exact.symm ▸ range)
  rwa [exact, sign, if_neg Bool.false_ne_true, one_mul] at this

theorem denotes_nearest {num den : ℕ} (positive : 0 < den) (small : (num : ℚ) / den ≤ ample) :
    Denotes (nearest false num den) (rounded (num / den)) := by
  refine denotes_nearest_of_inRange positive (inRange_of_le_ample ?_)
  rwa [abs_of_nonneg (div_nonneg num.cast_nonneg den.cast_nonneg)]

theorem denotes_ofNat {n : ℕ} (small : (n : ℚ) ≤ ample) : Denotes (ofNat n) (rounded n) := by
  have exact : (n : ℚ) / (1 : ℕ) = n := by rw [Nat.cast_one, div_one]
  have := denotes_nearest Nat.one_pos (exact.trans_le small)
  rwa [exact] at this

/-- A whole number of at most 53 bits is a double. -/
theorem denotes_natCast {n : ℕ} (small : n ≤ 2 ^ (53 : ℕ)) : Denotes (ofNat n) n := by
  have bound : (n : ℚ) ≤ 2 ^ 53 := by exact_mod_cast small
  have := denotes_ofNat (le_ample bound (by omega))
  rwa [rounded_natCast small] at this

theorem denotes_ofNat_zero : Denotes 0 0 := by
  have := denotes_natCast (n := 0) (by decide)
  rwa [Nat.cast_zero] at this

theorem denotes_ofNat_one : Denotes 1 1 := by
  have := denotes_natCast (n := 1) (by decide)
  rwa [Nat.cast_one] at this

theorem Denotes.neg (hx : Denotes x p) : Denotes x.neg (-p) := by
  cases hx with
  | finite s m fits =>
    rw [← neg_div, ← neg_mul, ← sign_not]
    exact .finite (!s) m fits

theorem Denotes.add_of_inRange (hx : Denotes x p) (hy : Denotes y q) (range : InRange (p + q)) :
    Denotes (x + y) (rounded (p + q)) := by
  cases hx with
  | finite s m hm =>
    cases hy with
    | finite t n hn =>
      rw [← signed_cast, ← signed_cast, ← add_div, ← Int.cast_add] at *
      change Denotes (if signed s m + signed t n = 0 then _ else _) _
      -- The exact sum is a whole number of units already, and is rounded once.
      generalize signed s m + signed t n = exact at *
      split
      case isTrue none =>
        rw [none, Int.cast_zero, zero_div, rounded_zero]
        exact denotes_zero _
      case isFalse =>
        have value : (exact : ℚ) / unitScale =
            sign (decide (exact < 0)) * ((exact.natAbs : ℚ) / (1 : ℕ) / unitScale) := by
          rw [Nat.cast_one, div_one, ← Int.cast_natCast, Int.natCast_natAbs, Int.cast_abs]
          rcases lt_or_ge exact 0 with negative | nonneg
          · have : (exact : ℚ) < 0 := by exact_mod_cast negative
            simp [sign, negative, abs_of_neg this, neg_div]
          · have : (0 : ℚ) ≤ exact := by exact_mod_cast nonneg
            simp [sign, nonneg.not_gt, abs_of_nonneg this]
        rw [value, inRange_sign_mul] at range
        rw [value]
        exact denotes_ofUnits_of_inRange _ Nat.one_pos range

theorem Denotes.add (hx : Denotes x p) (hy : Denotes y q) (small : |p + q| ≤ ample) :
    Denotes (x + y) (rounded (p + q)) := hx.add_of_inRange hy (inRange_of_le_ample small)

theorem Denotes.sub_of_inRange (hx : Denotes x p) (hy : Denotes y q) (range : InRange (p - q)) :
    Denotes (x - y) (rounded (p - q)) := by
  rw [sub_eq_add_neg] at range ⊢
  exact hx.add_of_inRange hy.neg range

theorem Denotes.sub (hx : Denotes x p) (hy : Denotes y q) (small : |p - q| ≤ ample) :
    Denotes (x - y) (rounded (p - q)) := hx.sub_of_inRange hy (inRange_of_le_ample small)

/-- Units times units are counted in units of units, which is a fraction of units. -/
theorem units_mul_units (s t : Bool) (m n : ℕ) :
    sign s * m / unitScale * (sign t * n / unitScale) =
      sign (s != t) * (((m * n : ℕ) : ℚ) / unitsInOne / unitScale) := by
  rw [sign_xor, Nat.cast_mul, ← unitScale]
  ring

theorem Denotes.mul_of_inRange (hx : Denotes x p) (hy : Denotes y q) (range : InRange (p * q)) :
    Denotes (x * y) (rounded (p * q)) := by
  cases hx with
  | finite s m hm =>
    cases hy with
    | finite t n hn =>
      rw [units_mul_units, inRange_sign_mul] at range
      rw [units_mul_units]
      exact denotes_ofUnits_of_inRange _ unitsInOne_pos range

theorem Denotes.mul (hx : Denotes x p) (hy : Denotes y q) (small : |p * q| ≤ ample) :
    Denotes (x * y) (rounded (p * q)) := hx.mul_of_inRange hy (inRange_of_le_ample small)

/-- Units by units are a fraction, which is counted in units again. -/
theorem units_div_units (s t : Bool) (m : ℕ) {n : ℕ} (some : n ≠ 0) :
    sign s * m / unitScale / (sign t * n / unitScale) =
      sign (s != t) * (((m * unitsInOne : ℕ) : ℚ) / n / unitScale) := by
  have positive := unitScale_pos
  rw [sign_xor, Nat.cast_mul, ← unitScale]
  cases t <;> simp only [sign, if_true, if_false, Bool.false_eq_true] <;> field_simp

theorem Denotes.div_of_inRange (hx : Denotes x p) (hy : Denotes y q) (nonzero : q ≠ 0)
    (range : InRange (p / q)) : Denotes (x / y) (rounded (p / q)) := by
  cases hx with
  | finite s m hm =>
    cases hy with
    | finite t n hn =>
      have some : n ≠ 0 := by
        rintro rfl
        simp at nonzero
      rw [units_div_units s t m some, inRange_sign_mul] at range
      rw [units_div_units s t m some]
      change Denotes (if n = 0 then _ else _) _
      rw [if_neg some]
      exact denotes_ofUnits_of_inRange _ (Nat.pos_of_ne_zero some) range

theorem Denotes.div (hx : Denotes x p) (hy : Denotes y q) (nonzero : q ≠ 0)
    (small : |p / q| ≤ ample) : Denotes (x / y) (rounded (p / q)) :=
  hx.div_of_inRange hy nonzero (inRange_of_le_ample small)

/-! ### Comparison -/

theorem Denotes.le_iff (hx : Denotes x p) (hy : Denotes y q) : x ≤ y ↔ p ≤ q := by
  cases hx with
  | finite s m hm =>
    cases hy with
    | finite t n hn =>
      rw [← signed_cast, ← signed_cast, div_le_div_iff_of_pos_right unitScale_pos, Int.cast_le]
      exact decide_eq_true_iff

theorem Denotes.lt_iff (hx : Denotes x p) (hy : Denotes y q) : x < y ↔ p < q := by
  cases hx with
  | finite s m hm =>
    cases hy with
    | finite t n hn =>
      rw [← signed_cast, ← signed_cast, div_lt_div_iff_of_pos_right unitScale_pos, Int.cast_lt]
      exact decide_eq_true_iff

theorem Denotes.min (hx : Denotes x p) (hy : Denotes y q) : Denotes (x.min y) (p ⊓ q) := by
  rw [Binary64.min, hx.isNaN, if_neg Bool.false_ne_true]
  split
  case isTrue less =>
    rw [inf_eq_right.2 ((hy.lt_iff hx).1 less).le]
    exact hy
  case isFalse notLess =>
    rw [inf_eq_left.2 (not_lt.1 fun less => notLess ((hy.lt_iff hx).2 less))]
    exact hx

theorem Denotes.max (hx : Denotes x p) (hy : Denotes y q) : Denotes (x.max y) (p ⊔ q) := by
  rw [Binary64.max, hx.isNaN, if_neg Bool.false_ne_true]
  split
  case isTrue less =>
    rw [sup_eq_right.2 ((hx.lt_iff hy).1 less).le]
    exact hy
  case isFalse notLess =>
    rw [sup_eq_left.2 (not_lt.1 fun less => notLess ((hx.lt_iff hy).2 less))]
    exact hx

/-! ### Whole parts -/

/-- The whole part counts the positive whole numbers up to a double, as far as 64 bits can count them. -/
theorem Denotes.le_floorClamped_iff (h : Denotes x q) {k : ℕ} (some : 0 < k) (few : k < 2 ^ (64 : ℕ)) :
    k ≤ x.floorClamped.toNat ↔ (k : ℚ) ≤ q := by
  cases h with
  | finite negative units fits =>
    have positive := unitScale_pos
    cases negative with
    | true =>
      have below := sign_true_mul_div_nonpos units
      have above : (0 : ℚ) < k := by exact_mod_cast some
      rw [floorClamped, UInt64.toNat_zero]
      exact iff_of_false (by omega) (by linarith)
    | false =>
      have clamped : (floorClamped (.finite false units fits)).toNat =
          Nat.min (units / unitsInOne) (2 ^ (64 : ℕ) - 1) := by
        refine UInt64.toNat_ofNat_of_lt' ((Nat.min_le_right _ _).trans_lt ?_)
        decide
      have whole : k ≤ units / unitsInOne ↔ (k : ℚ) * unitScale ≤ units := by
        rw [Nat.le_div_iff_mul_le unitsInOne_pos, unitScale, ← Nat.cast_mul, Nat.cast_le]
      rw [clamped, sign, if_neg Bool.false_ne_true, one_mul, le_div_iff₀ positive, ← whole]
      exact Nat.le_min.trans (and_iff_left (Nat.le_sub_one_of_lt few))

/-- The whole part of a double that is not too large is its floor. -/
theorem Denotes.floorClamped_eq_floor (h : Denotes x q) (high : q < 2 ^ 64) :
    x.floorClamped.toNat = ⌊q⌋₊ := by
  refine eq_of_forall_le_iff fun k => ?_
  rcases Nat.eq_zero_or_pos k with rfl | some
  · exact iff_of_true (Nat.zero_le _) (Nat.zero_le _)
  rw [Nat.le_floor_iff' some.ne']
  rcases Nat.lt_or_ge k (2 ^ (64 : ℕ)) with few | many
  · exact h.le_floorClamped_iff some few
  · have many' : (2 : ℚ) ^ 64 ≤ k := by exact_mod_cast many
    exact iff_of_false (x.floorClamped.toNat_lt.trans_le many).not_ge (high.trans_le many').not_ge

theorem Denotes.floorClamped_eq_zero (h : Denotes x q) (less : q < 1) : x.floorClamped = 0 := by
  rw [← UInt64.toNat_inj, UInt64.toNat_zero, h.floorClamped_eq_floor (less.trans (by norm_num)), Nat.floor_eq_zero]
  exact less

theorem Denotes.floorClamped_le (h : Denotes x q) {n : ℕ} (high : q ≤ n) : x.floorClamped.toNat ≤ n := by
  by_contra more
  have few := x.floorClamped.toNat_lt
  have above := (h.le_floorClamped_iff n.succ_pos (by omega)).1 (not_le.1 more)
  rw [Nat.cast_succ] at above
  linarith

/-- Greater values have greater whole parts. -/
theorem Denotes.floorClamped_mono (hx : Denotes x p) (hy : Denotes y q) (order : p ≤ q) :
    x.floorClamped.toNat ≤ y.floorClamped.toNat := by
  rcases Nat.eq_zero_or_pos x.floorClamped.toNat with none | some
  · rw [none]
    exact Nat.zero_le _
  · have few := x.floorClamped.toNat_lt
    exact (hy.le_floorClamped_iff some few).2 (((hx.le_floorClamped_iff some few).1 le_rfl).trans order)

/-- The whole part depends on the value alone. -/
theorem Denotes.floorClamped_eq (hx : Denotes x q) (hy : Denotes y q) : x.floorClamped = y.floorClamped :=
  UInt64.toNat_inj.1 (le_antisymm (hx.floorClamped_mono hy le_rfl) (hy.floorClamped_mono hx le_rfl))

/-! ### NaN and infinities -/

theorem nan_add (x : Binary64) : nan + x = nan := by cases x <;> rfl

theorem nan_sub (x : Binary64) : nan - x = nan := by cases x <;> rfl

theorem nan_min (x : Binary64) : nan.min x = x := if_pos rfl

theorem nan_max (x : Binary64) : nan.max x = x := if_pos rfl

/-- An infinity is not moved by a finite double. -/
theorem Denotes.infinity_add (h : Denotes x p) (s : Bool) : infinity s + x = infinity s := by
  cases h
  rfl

theorem Denotes.infinity_sub (h : Denotes x p) (s : Bool) : infinity s - x = infinity s := by
  cases h
  rfl

theorem Denotes.sub_infinity (h : Denotes x p) (s : Bool) : x - infinity s = infinity !s := by
  cases h
  rfl

/-- An infinity by a positive double is the same infinity. -/
theorem Denotes.infinity_div (h : Denotes x p) (positive : 0 < p) (s : Bool) :
    infinity s / x = infinity s := by
  obtain ⟨units, fits, rfl, -⟩ := h.exists_eq_finite positive
  change infinity (s != false) = infinity s
  rw [Bool.bne_false]

theorem Denotes.infinity_min (h : Denotes x p) (s : Bool) :
    (infinity s).min x = if s then infinity true else x := by
  cases h
  cases s <;> rfl

theorem Denotes.infinity_max (h : Denotes x p) (s : Bool) :
    (infinity s).max x = if s then x else infinity false := by
  cases h
  cases s <;> rfl

theorem Denotes.not_le_nan (h : Denotes x p) : ¬x ≤ nan := by
  cases h
  exact Bool.false_ne_true

theorem Denotes.not_le_infinity (h : Denotes x p) : ¬x ≤ infinity true := by
  cases h
  exact Bool.false_ne_true

theorem Denotes.not_infinity_le (h : Denotes x p) : ¬infinity false ≤ x := by
  cases h
  exact Bool.false_ne_true

/-- What lies above a finite double is finite or infinite. -/
theorem Denotes.cases_of_le (h : Denotes x p) (above : x ≤ y) :
    (∃ q, Denotes y q ∧ p ≤ q) ∨ y = infinity false := by
  cases y with
  | nan => exact absurd above h.not_le_nan
  | infinity negative =>
    cases negative with
    | false => exact .inr rfl
    | true => exact absurd above h.not_le_infinity
  | finite negative units fits =>
    have hy := Denotes.finite negative units fits
    exact .inl ⟨_, hy, (h.le_iff hy).1 above⟩

/-- What lies between finite doubles is finite. -/
theorem Denotes.exists_between (hx : Denotes x p) {z : Binary64} {r : ℚ} (hz : Denotes z r) (above : x ≤ y)
    (below : y ≤ z) : ∃ q, Denotes y q ∧ p ≤ q ∧ q ≤ r := by
  rcases hx.cases_of_le above with ⟨q, hy, low⟩ | rfl
  · exact ⟨q, hy, low, (hy.le_iff hz).1 below⟩
  · exact absurd below hz.not_infinity_le

end Binary64

end Admission
