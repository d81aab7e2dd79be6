import Admission.Proofs.Binary64.Range

/-!
# The order of doubles

Doubles that are no NaN are ordered, the infinities included, and the operations keep this order where one
operand is a finite double. Past the greatest double a result is an infinity, which is where the order wants
it to be.

## Main definitions

* `Binary64.Nearest`: the double is what a rational number is rounded to, infinities included.

## Main results

* `Binary64.cases_of_le`: two doubles of which one is no greater than the other.
* `Binary64.le_trans`: the order is transitive.
* `Binary64.add_le_add_of_small`, `sub_le_sub_of_small`, `small_sub_le_small_sub`: sums and differences.
* `Binary64.div_le_div_of_pos`: quotients, overflow included.
* `Binary64.min_le_min_of_denotes`, `max_le_max_of_denotes`, `floorClamped_mono`: what else keeps the order.
-/

namespace Admission

-- Powers of natural numbers are the core library's, whatever else is in scope.
attribute [local instance (high)] instPowNat

namespace Binary64

variable {x y z w : Binary64} {p q r t : ℚ}

theorem infinity_true_le (number : y.isNaN = false) : infinity true ≤ y := by
  cases y with
  | nan => cases number
  | infinity negative => exact rfl
  | finite negative units fits => exact rfl

theorem le_infinity_false (number : x.isNaN = false) : x ≤ infinity false := by
  cases x with
  | nan => cases number
  | infinity negative => exact Bool.or_true negative
  | finite negative units fits => exact rfl

theorem le_self (number : x.isNaN = false) : x ≤ x := by
  cases x with
  | nan => cases number
  | infinity negative => cases negative <;> exact rfl
  | finite negative units fits =>
    have hx := Denotes.finite negative units fits
    exact (hx.le_iff hx).2 le_rfl

/-- Of two doubles in order the first is minus infinity, or the second is infinite, or both are finite. -/
theorem cases_of_le (h : x ≤ y) :
    (x = infinity true ∧ y.isNaN = false) ∨ (x.isNaN = false ∧ y = infinity false) ∨
      ∃ p q, Denotes x p ∧ Denotes y q ∧ p ≤ q := by
  cases x with
  | nan => exact absurd h (not_nan_le y)
  | infinity negative =>
    cases negative with
    | true =>
      cases y with
      | nan => cases h
      | infinity => exact .inl ⟨rfl, rfl⟩
      | finite => exact .inl ⟨rfl, rfl⟩
    | false =>
      cases y with
      | nan => cases h
      | infinity negative =>
        cases negative with
        | true => cases h
        | false => exact .inr (.inl ⟨rfl, rfl⟩)
      | finite => cases h
  | finite negative units fits =>
    have hx := Denotes.finite negative units fits
    rcases hx.cases_of_le h with ⟨q, hy, low⟩ | endless
    · exact .inr (.inr ⟨_, q, hx, hy, low⟩)
    · exact .inr (.inl ⟨rfl, endless⟩)

theorem isNaN_left_of_le (h : x ≤ y) : x.isNaN = false := by
  rcases cases_of_le h with ⟨rfl, -⟩ | ⟨number, -⟩ | ⟨p, q, hx, -, -⟩
  · rfl
  · exact number
  · exact hx.isNaN

theorem isNaN_right_of_le (h : x ≤ y) : y.isNaN = false := by
  rcases cases_of_le h with ⟨-, number⟩ | ⟨-, rfl⟩ | ⟨p, q, -, hy, -⟩
  · exact number
  · rfl
  · exact hy.isNaN

theorem le_trans (h : x ≤ y) (h' : y ≤ z) : x ≤ z := by
  rcases cases_of_le h with ⟨rfl, -⟩ | ⟨number, rfl⟩ | ⟨p, q, hx, hy, less⟩
  · exact infinity_true_le (isNaN_right_of_le h')
  · rcases cases_of_le h' with ⟨other, -⟩ | ⟨-, rfl⟩ | ⟨p, q, hy, -, -⟩
    · cases other
    · exact le_infinity_false number
    · cases hy
  · rcases hy.cases_of_le h' with ⟨r, hz, less'⟩ | rfl
    · exact (hx.le_iff hz).2 (less.trans less')
    · exact le_infinity_false hx.isNaN

/-! ### Sums and differences -/

theorem isNaN_add_of_small (number : x.isNaN = false) (hz : Denotes z r) (small : |r| < 2 ^ 970) :
    (x + z).isNaN = false := by
  cases x with
  | nan => cases number
  | infinity negative =>
    rw [hz.infinity_add]
    rfl
  | finite negative units fits => exact ((Denotes.finite negative units fits).add_of_small hz small).isNaN

/-- Greater doubles have greater sums. -/
theorem add_le_add_of_small (h : x ≤ y) (hz : Denotes z r) (hw : Denotes w t) (smallz : |r| < 2 ^ 970)
    (smallw : |t| < 2 ^ 970) (less : r ≤ t) : x + z ≤ y + w := by
  rcases cases_of_le h with ⟨rfl, number⟩ | ⟨number, rfl⟩ | ⟨p, q, hx, hy, order⟩
  · rw [hz.infinity_add]
    exact infinity_true_le (isNaN_add_of_small number hw smallw)
  · rw [hw.infinity_add]
    exact le_infinity_false (isNaN_add_of_small number hz smallz)
  · rw [(hx.add_of_small hz smallz).le_iff (hy.add_of_small hw smallw)]
    exact rounded_mono (add_le_add order less)

theorem sub_le_sub_of_small (h : x ≤ y) (hz : Denotes z r) (hw : Denotes w t) (smallz : |r| < 2 ^ 970)
    (smallw : |t| < 2 ^ 970) (less : t ≤ r) : x - z ≤ y - w :=
  add_le_add_of_small h hz.neg hw.neg (by rwa [abs_neg]) (by rwa [abs_neg]) (neg_le_neg less)

/-- What is taken from something small leaves less the greater it is. -/
theorem small_sub_le_small_sub (hz : Denotes z r) (small : |r| < 2 ^ 970) (h : x ≤ y) : z - y ≤ z - x := by
  have number {v : Binary64} (number : v.isNaN = false) : (z - v).isNaN = false := by
    cases v with
    | nan => cases number
    | infinity negative =>
      rw [hz.sub_infinity]
      rfl
    | finite negative units fits => exact (hz.small_sub (.finite negative units fits) small).isNaN
  rcases cases_of_le h with ⟨rfl, other⟩ | ⟨other, rfl⟩ | ⟨p, q, hx, hy, order⟩
  · rw [hz.sub_infinity]
    exact le_infinity_false (number other)
  · rw [hz.sub_infinity]
    exact infinity_true_le (number other)
  · rw [(hz.small_sub hy small).le_iff (hz.small_sub hx small)]
    exact rounded_mono (sub_le_sub_left order r)

/-! ### Products and quotients -/

/-- The double is what a rational number is rounded to: the infinity of its sign where that is too large for
a finite one. -/
inductive Nearest : Binary64 → ℚ → Prop
  | within {x : Binary64} {q : ℚ} (range : InRange q) (value : Denotes x (rounded q)) : Nearest x q
  | beyond (s : Bool) {q : ℚ} (nonneg : 0 ≤ q) (far : ¬InRange q) : Nearest (infinity s) (sign s * q)

theorem Nearest.isNaN (h : Nearest x q) : x.isNaN = false := by
  cases h with
  | within range value => exact value.isNaN
  | beyond s nonneg far => rfl

/-- Rounding keeps order where it overflows, too. -/
theorem Nearest.le (hx : Nearest x p) (hy : Nearest y q) (order : p ≤ q) : x ≤ y := by
  have numberx := hx.isNaN
  have numbery := hy.isNaN
  cases hx with
  | within rangex valuex =>
    cases hy with
    | within rangey valuey => exact (valuex.le_iff valuey).2 (rounded_mono order)
    | beyond s nonneg far =>
      cases s with
      | false => exact le_infinity_false numberx
      | true =>
        -- What lies below all finite doubles lies below the range.
        rw [sign, if_pos rfl, neg_one_mul] at order
        refine absurd (rangex.mono ?_) far
        rw [abs_of_nonneg nonneg, abs_of_nonpos (order.trans (neg_nonpos.2 nonneg))]
        exact le_neg_of_le_neg order
  | beyond s nonneg far =>
    cases s with
    | true => exact infinity_true_le numbery
    | false =>
      rw [sign, if_neg Bool.false_ne_true, one_mul] at order
      cases hy with
      | within rangey valuey =>
        refine absurd (rangey.mono ?_) far
        rwa [abs_of_nonneg nonneg, abs_of_nonneg (nonneg.trans order)]
      | beyond s' nonneg' far' =>
        cases s' with
        | false => exact rfl
        | true =>
          rw [sign, if_pos rfl, neg_one_mul] at order
          exact absurd ((denotes_zero false).inRange.mono (by rw [abs_zero, abs_nonpos_iff]; linarith)) far

/-- A fraction of units is rounded to the double nearest to it. -/
theorem nearest_ofUnits {num den : ℕ} (s : Bool) (positive : 0 < den) :
    Nearest (ofUnits s num den) (sign s * ((num : ℚ) / den / unitScale)) := by
  by_cases range : InRange ((num : ℚ) / den / unitScale)
  · exact .within ((inRange_sign_mul s).2 range) (denotes_ofUnits_of_inRange s positive range)
  · have far := mt (inRange_div_iff positive).2 range
    rw [ofUnits, dif_neg far]
    exact .beyond s (div_nonneg (div_nonneg num.cast_nonneg den.cast_nonneg) unitScale_pos.le) range

/-- A quotient is rounded to the double nearest to it. -/
theorem Denotes.nearest_div (hx : Denotes x p) (hy : Denotes y q) (nonzero : q ≠ 0) :
    Nearest (x / y) (p / q) := by
  cases hx with
  | finite s m hm =>
    cases hy with
    | finite t n hn =>
      have some : n ≠ 0 := by
        rintro rfl
        simp at nonzero
      rw [units_div_units s t m some]
      change Nearest (if n = 0 then _ else _) _
      rw [if_neg some]
      exact nearest_ofUnits _ (Nat.pos_of_ne_zero some)

/-- A product is rounded to the double nearest to it. -/
theorem Denotes.nearest_mul (hx : Denotes x p) (hy : Denotes y q) : Nearest (x * y) (p * q) := by
  cases hx with
  | finite s m hm =>
    cases hy with
    | finite t n hn =>
      rw [units_mul_units]
      exact nearest_ofUnits _ unitsInOne_pos

/-- What is rounded to a finite double stays in range. -/
theorem Nearest.denotes (h : Nearest x q) (finite : x.isFinite = true) : Denotes x (rounded q) := by
  cases h with
  | within range value => exact value
  | beyond s nonneg far => cases finite

/-- Greater doubles have greater quotients by a positive one. -/
theorem div_le_div_of_pos (h : x ≤ y) (hz : Denotes z r) (positive : 0 < r) : x / z ≤ y / z := by
  have number {v : Binary64} (number : v.isNaN = false) : (v / z).isNaN = false := by
    cases v with
    | nan => cases number
    | infinity negative =>
      cases hz
      rfl
    | finite negative units fits =>
      exact ((Denotes.finite negative units fits).nearest_div hz positive.ne').isNaN
  rcases cases_of_le h with ⟨rfl, other⟩ | ⟨other, rfl⟩ | ⟨p, q, hx, hy, order⟩
  · rw [hz.infinity_div positive]
    exact infinity_true_le (number other)
  · rw [hz.infinity_div positive]
    exact le_infinity_false (number other)
  · exact (hx.nearest_div hz positive.ne').le (hy.nearest_div hz positive.ne')
      (div_le_div_of_nonneg_right order positive.le)

/-! ### Minimum, maximum and whole parts -/

/-- The minimum with a finite double does not exceed it, whatever the other operand is. -/
theorem Denotes.min_le (hz : Denotes z r) (x : Binary64) : x.min z ≤ z := by
  have self : z ≤ z := le_self hz.isNaN
  cases x with
  | nan => exact self
  | infinity negative =>
    rw [hz.infinity_min]
    cases negative with
    | true => exact infinity_true_le hz.isNaN
    | false => exact self
  | finite negative units fits =>
    exact (((Denotes.finite negative units fits).min hz).le_iff hz).2 inf_le_right

/-- The maximum with a finite double does not fall below it, whatever the other operand is. -/
theorem Denotes.le_max (hz : Denotes z r) (x : Binary64) : z ≤ x.max z := by
  have self : z ≤ z := le_self hz.isNaN
  cases x with
  | nan => exact self
  | infinity negative =>
    rw [hz.infinity_max]
    cases negative with
    | true => exact self
    | false => exact le_infinity_false hz.isNaN
  | finite negative units fits =>
    exact (hz.le_iff ((Denotes.finite negative units fits).max hz)).2 le_sup_right

theorem min_le_min_of_denotes (h : x ≤ y) (hz : Denotes z r) : x.min z ≤ y.min z := by
  rcases cases_of_le h with ⟨rfl, -⟩ | ⟨-, rfl⟩ | ⟨p, q, hx, hy, order⟩
  · rw [hz.infinity_min, if_pos rfl]
    exact infinity_true_le (isNaN_left_of_le (hz.min_le y))
  · rw [hz.infinity_min, if_neg Bool.false_ne_true]
    exact hz.min_le x
  · exact ((hx.min hz).le_iff (hy.min hz)).2 (inf_le_inf_right r order)

theorem max_le_max_of_denotes (h : x ≤ y) (hz : Denotes z r) : x.max z ≤ y.max z := by
  rcases cases_of_le h with ⟨rfl, -⟩ | ⟨-, rfl⟩ | ⟨p, q, hx, hy, order⟩
  · rw [hz.infinity_max, if_pos rfl]
    exact hz.le_max y
  · rw [hz.infinity_max, if_neg Bool.false_ne_true]
    exact le_infinity_false (isNaN_right_of_le (hz.le_max x))
  · exact ((hx.max hz).le_iff (hy.max hz)).2 (sup_le_sup_right order r)

/-- Greater doubles have greater whole parts. -/
theorem floorClamped_mono (h : x ≤ y) : x.floorClamped ≤ y.floorClamped := by
  rw [UInt64.le_iff_toNat_le]
  rcases cases_of_le h with ⟨rfl, -⟩ | ⟨-, rfl⟩ | ⟨p, q, hx, hy, order⟩
  · exact Nat.zero_le _
  · exact Nat.le_of_lt_succ x.floorClamped.toNat_lt
  · exact hx.floorClamped_mono hy order

end Binary64

end Admission
