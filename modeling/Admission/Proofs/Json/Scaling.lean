import Admission.Proofs.Binary64.Blur
import Admission.Proofs.Binary64.Order
import Admission.Proofs.Json.Numeral

/-!
# How near the double of a numeral is

The digits that are kept, the power of ten and their product or quotient are each rounded, and the digits that do
not fit 64 bits are left out. Each of these steps moves the number by one factor of 1 - 2⁻⁵³, and a quotient that
is tiny by half a unit besides. The sign is put on last, so it is never lost.

## Main definitions

* `Binary64.Unsigned`: the doubles whose sign is plus.

## Main results

* `Json.Numeral.scale_up`, `Json.Numeral.scale_down`: how near a scaled number is.
* `Json.Numeral.double?_near`: how near the double of a numeral is to the number that it spells.
-/

namespace Admission

open Binary64

-- Powers of natural numbers are the core library's, whatever else is in scope.
attribute [local instance (high)] instPowNat

/-! ### Signs -/

namespace Binary64

/-- A finite double whose sign is plus. -/
def Unsigned (x : Binary64) : Prop := ∃ units fits, x = .finite false units fits

variable {x y : Binary64} {q : ℚ}

theorem denotes_unsigned {units : ℕ} (fits : Fits units) : Denotes (.finite false units fits) (units / unitScale) := by
  have := Denotes.finite false units fits
  rwa [sign, if_neg Bool.false_ne_true, one_mul] at this

theorem Unsigned.nonneg (unsigned : x.Unsigned) (h : Denotes x q) : 0 ≤ q := by
  obtain ⟨units, fits, rfl⟩ := unsigned
  rw [h.unique (denotes_unsigned fits)]
  exact div_nonneg units.cast_nonneg unitScale_pos.le

theorem Denotes.unsigned (h : Denotes x q) (positive : 0 < q) : x.Unsigned :=
  have ⟨units, fits, same, _⟩ := h.exists_eq_finite positive
  ⟨units, fits, same⟩

theorem unsigned_ofUnits {num den : ℕ} (finite : (ofUnits false num den).isFinite = true) :
    (ofUnits false num den).Unsigned := by
  rw [ofUnits] at finite ⊢
  split at finite
  case isTrue range =>
    rw [dif_pos range]
    exact ⟨_, _, rfl⟩
  case isFalse => cases finite

theorem Unsigned.mul (hx : x.Unsigned) (hy : y.Unsigned) (finite : (x * y).isFinite = true) :
    (x * y).Unsigned := by
  obtain ⟨m, hm, rfl⟩ := hx
  obtain ⟨n, hn, rfl⟩ := hy
  exact unsigned_ofUnits finite

theorem Unsigned.div (hx : x.Unsigned) (hy : y.Unsigned) (finite : (x / y).isFinite = true) :
    (x / y).Unsigned := by
  obtain ⟨m, hm, rfl⟩ := hx
  obtain ⟨n, hn, rfl⟩ := hy
  change (div _ _).isFinite = true at finite
  change (div _ _).Unsigned
  rw [Binary64.div] at finite ⊢
  split at finite
  case isTrue none =>
    split at finite <;> cases finite
  case isFalse some =>
    rw [if_neg some]
    exact unsigned_ofUnits finite

end Binary64

namespace Json.Numeral

theorem unsigned_tenTo {k : ℕ} (small : k ≤ 308) : (tenTo k).Unsigned :=
  (denotes_tenTo small).unsigned (one_pos.trans_le (one_le_rounded_ten_pow k))

/-- Scaling keeps the sign. -/
theorem unsigned_scale {fuel : ℕ} {x y : Binary64} {e : ℤ} (unsigned : x.Unsigned)
    (scaled : scale fuel x e = some y) : y.Unsigned := by
  have finite : x.isFinite = true := by
    obtain ⟨units, fits, rfl⟩ := unsigned
    rfl
  fun_induction scale fuel x e with
  | case1 _ _ _ near _ product stays =>
    exact Option.some.inj scaled ▸ unsigned.mul (unsigned_tenTo near) stays
  | case3 _ _ _ near =>
    cases scaled
    exact unsigned.div (unsigned_tenTo near) (isFinite_div_tenTo finite near)
  | case4 | case6 =>
    cases scaled
    exact ⟨_, _, rfl⟩
  | case7 _ _ _ _ _ _ ih =>
    have quotient := isFinite_div_tenTo finite (le_refl 308)
    exact ih (unsigned.div (unsigned_tenTo (le_refl 308)) quotient) scaled quotient
  | case2 | case5 => cases scaled

/-! ### Powers of ten -/

variable {x y : Binary64} {p q : ℚ} {n fuel k : ℕ} {e : ℤ}

theorem blurred_rounded_ten_pow (k : ℕ) : Blurred 1 0 (10 ^ k) (rounded (10 ^ k)) := by
  have := blurred_rounded_natCast (10 ^ k)
  rwa [Nat.cast_pow] at this

/-- Dividing by a power of ten moves a number by two factors more. What it was moved by besides is at most a tenth
of what it was, which leaves room for another half unit. -/
theorem div_tenTo_near (hx : Denotes x p) (nonneg : 0 ≤ p) (near : Blurred n (2 * halfUnit) q p) (some : 1 ≤ k)
    (small : k ≤ 308) (hq : 0 ≤ q) :
    ∃ w, Denotes (x / tenTo k) w ∧ Blurred (n + 2) (2 * halfUnit) (q / 10 ^ k) w := by
  have one := one_le_rounded_ten_pow k
  have power : (0 : ℚ) < 10 ^ k := by positivity
  have denoted : Denotes (x / tenTo k) (rounded (p / rounded (10 ^ k))) :=
    (hx.nearest_div (denotes_tenTo small) (one_pos.trans_le one).ne').denotes (isFinite_div_tenTo hx.isFinite small)
  have unit := halfUnit_pos
  have factor := one_sub_roundoff_pos
  have digits : Blurred n (2 * halfUnit / 10 ^ k) (q / 10 ^ k) (p / 10 ^ k) := by
    have := near.mul_right (inv_nonneg.2 power.le)
    rwa [← div_eq_mul_inv, ← div_eq_mul_inv, ← div_eq_mul_inv] at this
  -- Two roundings: that of the power, and that of the quotient.
  have quotient := digits.trans (by positivity) ((blurred_rounded_ten_pow k).div power nonneg)
  have result := quotient.trans (by positivity)
    (blurred_rounded (div_nonneg nonneg (one_pos.trans_le one).le))
  refine ⟨_, denoted, result.mono (div_nonneg hq power.le) le_rfl ?_⟩
  have tenth : 2 * halfUnit / 10 ^ k ≤ 2 * halfUnit / 10 :=
    div_le_div_of_nonneg_left (by positivity) (by norm_num) (le_self_pow₀ (by norm_num) (by omega))
  have room : 1 / 2 ≤ (1 - roundoff) ^ 1 * (1 - roundoff) ^ 1 := by norm_num [roundoff]
  have besides : 2 * halfUnit / 10 ^ k / ((1 - roundoff) ^ 1 * (1 - roundoff) ^ 1) ≤ halfUnit := by
    rw [div_le_iff₀ (by positivity)]
    nlinarith
  rw [add_zero, div_div]
  linarith

/-! ### Scaling -/

/-- Of the powers that scale down, one division takes care of the whole. -/
theorem mul_zpow_eq_div (q : ℚ) (down : e < 0) : q * 10 ^ e = q / 10 ^ e.natAbs := by
  rw [div_eq_mul_inv, ← zpow_natCast, ← zpow_neg]
  congr 2
  omega

/-- A division by a power of ten leaves the rest of the exponent to go. -/
theorem div_mul_zpow_add (q : ℚ) (e : ℤ) (k : ℕ) : q / 10 ^ k * 10 ^ (e + k) = q * 10 ^ e := by
  rw [zpow_add₀ (by norm_num), zpow_natCast]
  field_simp

/-- A division takes one of the steps that are left. -/
theorem div_le_of_le_pow_succ {c : ℚ} (small : q ≤ 10 ^ (k * (fuel + 1)) * c) : q / 10 ^ k ≤ 10 ^ (k * fuel) * c := by
  rw [div_le_iff₀ (by positivity)]
  refine small.trans_eq ?_
  rw [Nat.mul_succ, pow_add]
  ring

/-- Scaling down takes one division, after divisions by 10³⁰⁸ for exponents further down. What is below half a unit
after these is zero, which is near enough. -/
theorem scale_down (hx : Denotes x p) (unsigned : x.Unsigned) (near : Blurred n (2 * halfUnit) q p) (hq : 0 ≤ q)
    (small : q ≤ 10 ^ (308 * fuel) * (2 * halfUnit)) (down : e < 0) (scaled : scale fuel x e = some y) :
    ∃ w, Denotes y w ∧ Blurred (n + 2 * (fuel + 1)) (2 * halfUnit) (q * 10 ^ e) w := by
  have nonneg : 0 ≤ q * 10 ^ e := mul_nonneg hq (zpow_nonneg (by norm_num) e)
  have less : (10 : ℚ) ^ e ≤ 1 := zpow_le_one_of_nonpos₀ (by norm_num) down.le
  fun_induction scale fuel x e generalizing p q n with
  | case1 _ _ _ _ up | case2 _ _ _ _ up | case5 _ _ _ _ _ up => omega
  | case3 fuel x e within _ =>
    cases scaled
    obtain ⟨w, denoted, moved⟩ := div_tenTo_near hx (unsigned.nonneg hx) near (by omega) within hq
    rw [mul_zpow_eq_div q down]
    exact ⟨w, denoted, moved.mono (div_nonneg hq (by positivity)) (by omega) le_rfl⟩
  | case4 fuel e _ =>
    cases scaled
    rw [hx.unique (denotes_zero false)] at near
    have still := near.mul_right (zpow_nonneg (by norm_num) e : (0 : ℚ) ≤ 10 ^ e)
    rw [zero_mul] at still
    refine ⟨0, denotes_zero false, still.mono nonneg (by omega) (mul_le_of_le_one_right ?_ less)⟩
    exact mul_nonneg two_pos.le halfUnit_pos.le
  | case6 x e _ _ _ =>
    cases scaled
    -- No step is left, and the number is below half a unit.
    rw [Nat.mul_zero, pow_zero, one_mul] at small
    exact ⟨0, denotes_zero false, .zero nonneg ((mul_le_of_le_one_right hq less).trans small)⟩
  | case7 x e far _ _ fuel ih =>
    obtain ⟨w, denoted, moved⟩ := div_tenTo_near hx (unsigned.nonneg hx) near (by omega) (le_refl 308) hq
    have plus := unsigned.div (unsigned_tenTo (le_refl 308)) (isFinite_div_tenTo hx.isFinite (le_refl 308))
    -- The step takes 10³⁰⁸ off the exponent and leaves the rest to the steps behind it.
    have power := div_mul_zpow_add q e 308
    rw [Nat.cast_ofNat] at power
    have below : e + 308 < 0 := by omega
    obtain ⟨v, result, near⟩ := ih denoted plus moved (div_nonneg hq (by positivity)) (div_le_of_le_pow_succ small)
      below scaled (power ▸ nonneg) (zpow_le_one_of_nonpos₀ (by norm_num) below.le)
    rw [power] at near
    exact ⟨v, result, near.mono nonneg (by omega) le_rfl⟩

/-- Scaling up takes one multiplication. -/
theorem scale_up (hx : Denotes x p) (unsigned : x.Unsigned) (near : Blurred n 0 q p) (hq : 0 ≤ q) (up : 0 ≤ e)
    (scaled : scale fuel x e = some y) : ∃ w, Denotes y w ∧ Blurred (n + 2) halfUnit (q * 10 ^ e) w := by
  obtain ⟨k, rfl⟩ := Int.eq_ofNat_of_zero_le up
  rw [scale.eq_def, Int.natAbs_natCast, if_pos up, if_pos up] at scaled
  rw [zpow_natCast]
  have nonneg := unsigned.nonneg hx
  have one := one_pos.trans_le (one_le_rounded_ten_pow k)
  dsimp only at scaled
  split_ifs at scaled with within finite zero
  · cases scaled
    have denoted := (hx.nearest_mul (denotes_tenTo within)).denotes finite
    refine ⟨_, denoted, ?_⟩
    have digits := near.mul_right (pow_nonneg (by norm_num) k : (0 : ℚ) ≤ 10 ^ k)
    rw [zero_mul] at digits
    exact (digits.trans_of_zero ((blurred_rounded_ten_pow k).mul_left nonneg)).trans_of_zero
      (blurred_rounded (mul_nonneg nonneg one.le))
  · cases scaled
    -- A power that is out of reach is taken of zero only.
    subst zero
    rw [hx.unique (denotes_zero false)] at near
    have still := near.mul_right (pow_nonneg (by norm_num) k : (0 : ℚ) ≤ 10 ^ k)
    rw [zero_mul] at still
    exact ⟨0, denotes_zero false, still.mono (by positivity) (by omega) halfUnit_pos.le⟩

/-! ### Digits left out -/

theorem ofDigits_lt {digits : List ℕ} (decimal : ∀ d ∈ digits, d < 10) : ofDigits digits < 10 ^ digits.length := by
  induction digits with
  | nil => exact Nat.one_pos
  | cons d digits ih =>
    rw [List.forall_mem_cons] at decimal
    have rest := ih decimal.2
    rw [ofDigits_cons, List.length_cons, Nat.pow_succ]
    have : d * 10 ^ digits.length ≤ 9 * 10 ^ digits.length := Nat.mul_le_mul_right _ (by omega)
    omega

/-- What is left out makes less than one in the last digit that is kept, and only when no other digit fits is
anything left out. -/
theorem lt_absorb (kept : ℕ) {digits : List ℕ} (decimal : ∀ d ∈ digits, d < 10) :
    kept * 10 ^ digits.length + ofDigits digits <
        ((absorb kept digits).1 + 1) * 10 ^ (absorb kept digits).2 ∧
      ((absorb kept digits).2 ≠ 0 → 2 ^ (64 : ℕ) < (absorb kept digits).1 * 10 + 10) := by
  induction digits generalizing kept with
  | nil => simp [absorb, ofDigits]
  | cons d digits ih =>
    have rest := ofDigits_lt decimal
    rw [List.forall_mem_cons] at decimal
    rw [absorb]
    split
    case isTrue fits =>
      have value : kept * 10 ^ (d :: digits).length + ofDigits (d :: digits) =
          (kept * 10 + d) * 10 ^ digits.length + ofDigits digits := by
        rw [ofDigits_cons, List.length_cons, Nat.pow_succ]
        ring
      rw [value]
      exact ih (kept * 10 + d) decimal.2
    case isFalse full =>
      refine ⟨?_, fun _ => by omega⟩
      rw [Nat.add_mul, Nat.one_mul]
      exact Nat.add_lt_add_left rest _

/-- The digits that are left out make less than a factor of 1 - 2⁻⁵³. -/
theorem absorb_near (kept : ℕ) {digits : List ℕ} (decimal : ∀ d ∈ digits, d < 10) :
    Blurred 1 0 (kept * 10 ^ digits.length + ofDigits digits : ℕ)
      ((absorb kept digits).1 * 10 ^ (absorb kept digits).2) := by
  obtain ⟨short, some⟩ := lt_absorb kept decimal
  have less := (absorb_le kept digits).1
  generalize kept * 10 ^ digits.length + ofDigits digits = total at *
  generalize (absorb kept digits).1 = taken at *
  generalize (absorb kept digits).2 = unused at *
  have less' : (taken : ℚ) * 10 ^ unused ≤ total := by exact_mod_cast less
  have short' : (total : ℚ) < (taken + 1) * 10 ^ unused := by exact_mod_cast short
  have factor := one_sub_roundoff_pos
  constructor
  · rw [pow_one, sub_zero]
    rcases eq_or_ne unused 0 with rfl | nonzero
    · have all : total ≤ taken := by simpa [Nat.lt_succ_iff] using short
      have all' : (total : ℚ) ≤ taken := by exact_mod_cast all
      rw [pow_zero, mul_one]
      exact (mul_le_of_le_one_right total.cast_nonneg one_sub_roundoff_le_one).trans all'
    · have large : (2 : ℚ) ^ 64 < taken * 10 + 10 := by exact_mod_cast some nonzero
      -- More than 2⁶⁰ is kept then, so that one in the last digit is less than a rounding.
      have last : (taken + 1) * (1 - roundoff) ≤ taken := by
        rw [roundoff]
        linarith
      calc total * (1 - roundoff) ≤ (taken + 1) * 10 ^ unused * (1 - roundoff) :=
            mul_le_mul_of_nonneg_right short'.le factor.le
        _ = (taken + 1) * (1 - roundoff) * 10 ^ unused := by ring
        _ ≤ taken * 10 ^ unused := mul_le_mul_of_nonneg_right last (by positivity)
  · rw [pow_one, add_zero]
    exact less'.trans (le_div_self total.cast_nonneg factor one_sub_roundoff_le_one)

/-! ### Doubles -/

/-- Three divisions by 10³⁰⁸ make less than a unit of every number of 64 bits. -/
theorem two_pow_le_ten_pow_mul : (2 : ℚ) ^ 64 ≤ 10 ^ (308 * 3) * (2 * halfUnit) := by
  have unit : 2 * halfUnit = 1 / unitScale := by
    rw [halfUnit]
    ring
  rw [unit, mul_one_div, le_div_iff₀ unitScale_pos, unitScale_eq rfl, ← pow_add]
  calc (2 : ℚ) ^ (64 + 1074) ≤ 2 ^ (2 * (308 * 3)) := pow_le_pow_right₀ one_le_two (by omega)
    _ = (2 ^ 2) ^ (308 * 3) := pow_mul ..
    _ ≤ 10 ^ (308 * 3) := pow_le_pow_left₀ (by norm_num) (by norm_num) _

/-- A number of 64 bits is scaled to a number that ten factors lead to. -/
theorem scale_ofNat_near {kept : ℕ} (word : kept < 2 ^ (64 : ℕ)) (scaled : scale 3 (ofNat kept) e = some y) :
    y.Unsigned ∧ ∃ w, Denotes y w ∧ Blurred 9 (2 * halfUnit) (kept * 10 ^ e) w := by
  have size : (kept : ℚ) ≤ 2 ^ 64 := by exact_mod_cast word.le
  have denoted := denotes_ofNat (le_ample size (by omega))
  have unsigned : (ofNat kept).Unsigned := unsigned_ofUnits denoted.isFinite
  have unit := halfUnit_pos
  have near := blurred_rounded_natCast kept
  refine ⟨unsigned_scale unsigned scaled, ?_⟩
  rcases lt_or_ge e 0 with down | up
  · exact scale_down denoted unsigned (near.mono kept.cast_nonneg le_rfl (by positivity)) kept.cast_nonneg
      (size.trans two_pow_le_ten_pow_mul) down scaled
  · obtain ⟨w, result, near⟩ := scale_up denoted unsigned near kept.cast_nonneg up scaled
    have nonneg : (0 : ℚ) ≤ kept * 10 ^ e := mul_nonneg kept.cast_nonneg (zpow_nonneg (by norm_num) e)
    exact ⟨w, result, near.mono nonneg (by omega) (by linarith)⟩

/-- The double of a numeral has its sign and is as near to what it spells as ten factors and a unit allow. -/
theorem double?_near {n : Numeral} (whole : ofDigits n.whole < 2 ^ (64 : ℕ))
    (decimal : ∀ d ∈ n.fraction.getD [], d < 10) (read : n.double? = some x) :
    ∃ units fits, x = .finite n.negative units fits ∧
      Blurred 10 (2 * halfUnit) n.magnitude (units / unitScale) := by
  obtain ⟨kept, unused, taken, double⟩ := exists_double?_eq whole
  have word := (absorb_le (ofDigits n.whole) (n.fraction.getD [])).2.2 whole
  have digits := absorb_near (ofDigits n.whole) decimal
  rw [taken, ← ofDigits_append] at digits
  rw [taken] at word
  rw [double] at read
  obtain ⟨y, scaled, rfl⟩ := Option.map_eq_some_iff.1 read
  obtain ⟨⟨units, fits, rfl⟩, w, denoted, near⟩ := scale_ofNat_near word scaled
  rw [denoted.unique (denotes_unsigned fits)] at near
  refine ⟨units, fits, ?_, ?_⟩
  · cases n.negative <;> rfl
  · have power : (0 : ℚ) ≤ 10 ^ (n.shift - (n.fraction.getD []).length) := zpow_nonneg (by norm_num) _
    have moved := digits.mul_right power
    rw [zero_mul, ← mul_ten_zpow] at moved
    exact moved.trans_of_zero near

/-! ### One rounding -/

/-- The powers of ten up to 10²² are doubles. -/
theorem rounded_ten_pow (small : k ≤ 22) : rounded (10 ^ k) = 10 ^ k := by
  have odd : 5 ^ k ≤ 2 ^ (53 : ℕ) := (Nat.pow_le_pow_right (by decide) small).trans (by decide)
  have power : (10 : ℚ) ^ k = (5 ^ k : ℕ) * 2 ^ k := by
    rw [Nat.cast_pow, Nat.cast_ofNat, ← mul_pow]
    norm_num
  rw [power, rounded_mul_two_pow odd]

/-- A number of 53 bits that is scaled by one of these powers is rounded once. -/
theorem denotes_scale {kept : ℕ} (few : kept ≤ 2 ^ (53 : ℕ)) (near : e.natAbs ≤ 22)
    (scaled : scale fuel (ofNat kept) e = some y) : Denotes y (rounded (kept * 10 ^ e)) := by
  have within : e.natAbs ≤ 308 := near.trans (by decide)
  have digits := denotes_natCast few
  have power := denotes_tenTo within
  rw [rounded_ten_pow near] at power
  rw [scale.eq_def, if_pos within] at scaled
  dsimp only at scaled
  split at scaled
  case isTrue up =>
    split at scaled
    case isTrue finite =>
      cases scaled
      have result := (digits.nearest_mul power).denotes finite
      rwa [← zpow_natCast, Int.natAbs_of_nonneg up] at result
    case isFalse => cases scaled
  case isFalse down =>
    cases scaled
    have result := (digits.nearest_div power (by positivity)).denotes (isFinite_div_tenTo digits.isFinite within)
    rwa [div_eq_mul_inv, ← zpow_natCast, ← zpow_neg, show -(e.natAbs : ℤ) = e by omega] at result

/-- The double of a numeral of 53 bits and a small power of ten is the nearest one. -/
theorem double?_eq_rounded {n : Numeral} (few : ofDigits (n.whole ++ n.fraction.getD []) ≤ 2 ^ (53 : ℕ))
    (near : (n.shift - (n.fraction.getD []).length).natAbs ≤ 22) (read : n.double? = some x) :
    ∃ units fits, x = .finite n.negative units fits ∧ units / unitScale = rounded n.magnitude := by
  rw [ofDigits_append] at few
  have word := few.trans_lt (show 2 ^ (53 : ℕ) < 2 ^ (64 : ℕ) by decide)
  have whole : ofDigits n.whole < 2 ^ (64 : ℕ) :=
    ((Nat.le_mul_of_pos_right _ (Nat.pow_pos (by decide))).trans (Nat.le_add_right _ _)).trans_lt word
  obtain ⟨kept, unused, taken, double⟩ := exists_double?_eq whole
  obtain ⟨rfl, rfl⟩ := Prod.mk.inj ((absorb_of_lt word).symm.trans taken)
  rw [double, Nat.cast_zero, add_zero] at read
  obtain ⟨y, scaled, rfl⟩ := Option.map_eq_some_iff.1 read
  have denoted := denotes_scale few near scaled
  obtain ⟨units, fits, rfl⟩ := (scale_ofNat_near word scaled).1
  refine ⟨units, fits, ?_, ?_⟩
  · cases n.negative <;> rfl
  · rw [magnitude, ofDigits_append, denoted.unique (denotes_unsigned fits)]

end Json.Numeral

end Admission
