import Admission.Proofs.Binary64.Decimal
import Admission.Proofs.Json.Numeral
import Admission.Proofs.Json.Record

/-!
# Doubles in JSON

A finite double is written as its shortest decimal, and the numeral is read as a finite double. It need
not be the same one: between the digits and the double lie three roundings.

## Main definitions

* `Decimal.spelling`: how a decimal is spelled, in plain notation or with an exponent.
* `Binary64.reread`: what a double becomes when it is written and read again.

## Main results

* `Binary64.isFinite_reread`: no finite double is spelled as a numeral too large to be read.
* `Json.double_text`, `Json.double_null`: the text of a finite double is read as `reread` says, and what is written for
  any other is refused.
* `Json.isFinite_of_double`: every double that is read is finite.
-/

namespace Admission

open Json

-- Powers of natural numbers are the core library's, whatever else is in scope.
attribute [local instance (high)] instPowNat

namespace Decimal

variable (negative : Bool) (d : Decimal)

/-- The exponent of the leading digit. -/
def leading : ℤ := d.exponent + (Binary64.digitsOf d.digits).length - 1

/-- The digits with the point where the exponent puts it. -/
def plainSpelling : Spelling :=
  if 0 ≤ d.exponent then
    { negative
      whole := Binary64.digitsOf d.digits ++ List.replicate d.exponent.toNat '0'
      fraction := some ['0']
      exponent := none }
  else
    let places := (-d.exponent).toNat
    let padded := (Binary64.digitsOf d.digits).leftpad (places + 1) '0'
    { negative
      whole := padded.take (padded.length - places)
      fraction := some (padded.drop (padded.length - places))
      exponent := none }

/-- One digit before the point, and an exponent. -/
def exponentSpelling : Spelling where
  negative := negative
  whole := (Binary64.digitsOf d.digits).take 1
  fraction := if (Binary64.digitsOf d.digits).tail = [] then none else some (Binary64.digitsOf d.digits).tail
  exponent := some (decide (d.leading < 0), Binary64.digitsOf d.leading.natAbs)

/-- How a decimal is spelled. -/
def spelling : Spelling :=
  if Binary64.plainFrom ≤ d.leading ∧ d.leading < Binary64.plainBelow then d.plainSpelling negative
  else d.exponentSpelling negative

/-! ### Characters -/

theorem chars_plainSpelling : (d.plainSpelling negative).chars =
    (if negative then ['-'] else []) ++ Binary64.plainText (Binary64.digitsOf d.digits) d.exponent := by
  rw [plainSpelling, Binary64.plainText]
  split <;> simp [Spelling.chars, Spelling.fractionChars, Spelling.exponentChars]

theorem chars_exponentSpelling : (d.exponentSpelling negative).chars =
    (if negative then ['-'] else []) ++
      Binary64.exponentText (Binary64.digitsOf d.digits) d.leading := by
  obtain ⟨c, more, digits⟩ := List.exists_cons_of_ne_nil (isDigits_toDigits d.digits).1
  rw [exponentSpelling, Binary64.digitsOf, digits]
  cases more <;>
    simp [Binary64.exponentText, Spelling.chars, Spelling.fractionChars, Spelling.exponentChars]

/-! ### Properness -/

/-- Zero has no other exponent than zero. -/
def Normal : Prop := d.digits = 0 → d.exponent = 0

variable {d}

theorem head?_digitsOf (normal : d.Normal) (elsewhere : d.exponent ≠ 0) :
    (Binary64.digitsOf d.digits).head? ≠ some '0' :=
  head?_toDigits_ne fun zero => elsewhere (normal zero)

theorem isDigit_of_mem_padded {n places : ℕ} {c : Char}
    (mem : c ∈ (Binary64.digitsOf n).leftpad places '0') : c.isDigit = true := by
  rcases List.mem_append.1 mem with zero | digit
  · rw [List.eq_of_mem_replicate zero]
    rfl
  · exact (isDigits_toDigits n).2 c digit

/-- Of digits that do not begin with a zero, padded to more than some places, those before the places begin
with a zero only if it is all there is. -/
theorem take_leftpad {digits : List Char} (leading : digits.head? ≠ some '0') (places : ℕ)
    (zero : ((digits.leftpad (places + 1) '0').take
      ((digits.leftpad (places + 1) '0').length - places)).head? = some '0') :
    (digits.leftpad (places + 1) '0').take ((digits.leftpad (places + 1) '0').length - places) =
      ['0'] := by
  rw [List.length_leftpad] at zero ⊢
  rcases Nat.lt_or_ge places digits.length with long | short
  · -- Nothing was put before the digits.
    have same : digits.leftpad (places + 1) '0' = digits := by
      rw [List.leftpad, Nat.sub_eq_zero_of_le long, List.replicate_zero, List.nil_append]
    rw [same, List.head?_take, if_neg (by omega)] at zero
    exact absurd zero leading
  · -- A zero was put before the digits, and all other places come behind the point.
    have one : max (places + 1) digits.length - places = 1 := by omega
    have more : places + 1 - digits.length = (places - digits.length) + 1 := by omega
    rw [one, List.leftpad, more, List.replicate_succ]
    rfl

/-- The digits are followed by zeros up to the point. -/
theorem proper_plainSpelling_of_nonneg (normal : d.Normal) (up : 0 ≤ d.exponent) :
    (d.plainSpelling negative).Proper := by
  obtain ⟨nonempty, all⟩ := isDigits_toDigits d.digits
  rw [plainSpelling, if_pos up]
  constructor
  case whole =>
    refine ⟨List.append_ne_nil_of_left_ne_nil nonempty _, fun c mem => ?_⟩
    rcases List.mem_append.1 mem with digit | zero
    · exact all c digit
    · rw [List.eq_of_mem_replicate zero]
      rfl
  case noLeadingZero =>
    -- Only zero begins with the digit zero, and a normal zero has no exponent.
    intro zero
    dsimp only at zero ⊢
    rw [Binary64.digitsOf, List.head?_append_of_ne_nil _ nonempty] at zero
    have none : d.digits = 0 := by
      by_contra nonzero
      exact head?_toDigits_ne nonzero zero
    rw [none, normal none]
    rfl
  case fraction =>
    rintro digits same
    cases same
    exact ⟨by simp, by simp⟩
  case exponent => simp

/-- The point stands among the digits, or before them behind a single zero. -/
theorem proper_plainSpelling_of_neg (normal : d.Normal) (down : d.exponent < 0) :
    (d.plainSpelling negative).Proper := by
  rw [plainSpelling, if_neg (not_le.2 down)]
  dsimp only
  have some : 0 < (-d.exponent).toNat := by omega
  generalize (-d.exponent).toNat = places at *
  -- The digits are padded to one more than there are places, which keeps one of them before the point.
  have leading := take_leftpad (head?_digitsOf normal down.ne) places
  have digit (c : Char) (mem : c ∈ (Binary64.digitsOf d.digits).leftpad (places + 1) '0') :
      c.isDigit = true := isDigit_of_mem_padded mem
  have length : ((Binary64.digitsOf d.digits).leftpad (places + 1) '0').length =
      max (places + 1) (Binary64.digitsOf d.digits).length := List.length_leftpad ..
  generalize (Binary64.digitsOf d.digits).leftpad (places + 1) '0' = padded at *
  constructor
  case whole =>
    refine ⟨?_, fun c mem => digit c (List.mem_of_mem_take mem)⟩
    rw [ne_eq, ← List.length_eq_zero_iff, List.length_take]
    omega
  case noLeadingZero => exact leading
  case fraction =>
    rintro digits same
    cases same
    refine ⟨?_, fun c mem => digit c (List.mem_of_mem_drop mem)⟩
    rw [ne_eq, ← List.length_eq_zero_iff, List.length_drop]
    omega
  case exponent => simp

theorem proper_plainSpelling (normal : d.Normal) : (d.plainSpelling negative).Proper := by
  rcases le_or_gt 0 d.exponent with up | down
  · exact proper_plainSpelling_of_nonneg negative normal up
  · exact proper_plainSpelling_of_neg negative normal down

theorem proper_exponentSpelling (d : Decimal) : (d.exponentSpelling negative).Proper := by
  obtain ⟨nonempty, all⟩ := isDigits_toDigits d.digits
  obtain ⟨c, more, digits⟩ := List.exists_cons_of_ne_nil nonempty
  rw [exponentSpelling, Binary64.digitsOf, digits]
  rw [digits] at all
  constructor
  case whole => exact ⟨by simp, by simpa using all c List.mem_cons_self⟩
  case noLeadingZero =>
    intro zero
    cases zero
    rfl
  case fraction =>
    rintro tail same
    rw [List.tail_cons, Option.mem_def] at same
    split at same
    · cases same
    · cases same
      exact ⟨‹_›, fun c mem => all c (List.mem_cons_of_mem _ mem)⟩
  case exponent =>
    rintro e same
    cases same
    exact isDigits_toDigits _

/-- A decimal is spelled properly. -/
theorem proper_spelling (normal : d.Normal) : (d.spelling negative).Proper := by
  rw [spelling]
  split
  · exact proper_plainSpelling negative normal
  · exact proper_exponentSpelling negative d

/-! ### Magnitude -/

/-- The digits on both sides of the point, as one number. -/
theorem ofDigits_numeral (p : Spelling) :
    Numeral.ofDigits (p.numeral.whole ++ p.numeral.fraction.getD []) =
      Nat.ofDigitChars 10 (p.whole ++ p.fraction.getD []) 0 := by
  have parts : p.numeral.whole ++ p.numeral.fraction.getD [] =
      (p.whole ++ p.fraction.getD []).map digitValue := by
    cases fraction : p.fraction <;> simp [Spelling.numeral, fraction]
  rw [parts, ofDigits_map_digitValue]

theorem ofDigitChars_digitsOf (n : ℕ) : Nat.ofDigitChars 10 (Binary64.digitsOf n) 0 = n :=
  Nat.ofDigitChars_toDigits (by decide) (by decide)

/-- A decimal that is whole is spelled with a zero behind the point. -/
theorem parts_plainSpelling_of_nonneg {d : Decimal} (up : 0 ≤ d.exponent) :
    Numeral.ofDigits ((d.plainSpelling negative).numeral.whole ++
        (d.plainSpelling negative).numeral.fraction.getD []) = d.digits * 10 ^ (d.exponent + 1).toNat ∧
      (d.plainSpelling negative).numeral.shift -
        ((d.plainSpelling negative).numeral.fraction.getD []).length = -1 := by
  rw [ofDigits_numeral, plainSpelling, if_pos up]
  constructor
  · have digits : Nat.ofDigitChars 10
        (Binary64.digitsOf d.digits ++ List.replicate d.exponent.toNat '0' ++ ['0']) 0 =
          d.digits * 10 ^ d.exponent.toNat * 10 := by
      rw [Nat.ofDigitChars_append, Nat.ofDigitChars_append, ofDigitChars_digitsOf,
        Nat.ofDigitChars_replicate_zero, Nat.ofDigitChars_cons, Nat.ofDigitChars_nil]
      simp [Nat.mul_comm]
    rw [Option.getD_some, digits, Int.toNat_add up (by decide), Nat.mul_assoc, ← Nat.pow_succ]
    rfl
  · simp [Numeral.shift, Spelling.numeral]

/-- A decimal that is not whole is spelled with its digits and zeros before them. -/
theorem parts_plainSpelling_of_neg {d : Decimal} (down : ¬0 ≤ d.exponent) :
    Numeral.ofDigits ((d.plainSpelling negative).numeral.whole ++
        (d.plainSpelling negative).numeral.fraction.getD []) = d.digits ∧
      (d.plainSpelling negative).numeral.shift -
        ((d.plainSpelling negative).numeral.fraction.getD []).length = d.exponent := by
  obtain ⟨places, hp⟩ : ∃ places, places = (-d.exponent).toNat := ⟨_, rfl⟩
  obtain ⟨padded, spelled⟩ : ∃ padded, padded = (Binary64.digitsOf d.digits).leftpad (places + 1) '0' :=
    ⟨_, rfl⟩
  have length : padded.length = max (places + 1) (Binary64.digitsOf d.digits).length := by
    rw [spelled, List.length_leftpad]
  rw [ofDigits_numeral, plainSpelling, if_neg down]
  dsimp only
  rw [← hp, ← spelled]
  constructor
  · rw [Option.getD_some, List.take_append_drop, spelled, List.leftpad, Nat.ofDigitChars_append,
      Nat.ofDigitChars_replicate_zero, Nat.mul_zero, ofDigitChars_digitsOf]
  · simp only [Numeral.shift, Spelling.numeral, Option.map_some, Option.map_none, Option.getD_some,
      List.length_map, List.length_drop]
    omega

theorem magnitude_plainSpelling (d : Decimal) : (d.plainSpelling negative).numeral.magnitude = d.value := by
  rw [Numeral.magnitude, value]
  by_cases up : 0 ≤ d.exponent
  · obtain ⟨digits, place⟩ := parts_plainSpelling_of_nonneg negative up
    have power : (10 : ℚ) ^ (d.exponent + 1).toNat = 10 ^ (d.exponent + 1) := by
      rw [← zpow_natCast, Int.toNat_of_nonneg (by omega)]
    rw [digits, place, Nat.cast_mul, Nat.cast_pow, Nat.cast_ofNat, power, mul_assoc, ← zpow_add₀ (by norm_num),
      add_neg_cancel_right]
  · obtain ⟨digits, place⟩ := parts_plainSpelling_of_neg negative up
    rw [digits, place]

/-- In the notation with an exponent the digits are spelled alone. -/
theorem parts_exponentSpelling (d : Decimal) :
    Numeral.ofDigits ((d.exponentSpelling negative).numeral.whole ++
        (d.exponentSpelling negative).numeral.fraction.getD []) = d.digits ∧
      (d.exponentSpelling negative).numeral.shift -
        ((d.exponentSpelling negative).numeral.fraction.getD []).length = d.exponent := by
  obtain ⟨c, more, digits⟩ := List.exists_cons_of_ne_nil (isDigits_toDigits d.digits).1
  have tail : ((d.exponentSpelling negative).fraction.getD []) = more := by
    rw [exponentSpelling, Binary64.digitsOf, digits]
    cases more <;> rfl
  have whole : (d.exponentSpelling negative).whole = [c] := by
    rw [exponentSpelling, Binary64.digitsOf, digits]
    rfl
  have length : ((d.exponentSpelling negative).numeral.fraction.getD []).length = more.length := by
    rw [← tail]
    cases fraction : (d.exponentSpelling negative).fraction <;> simp [Spelling.numeral, fraction]
  have shift : (d.exponentSpelling negative).numeral.shift = d.leading := by
    rw [Numeral.shift, exponentSpelling, Spelling.numeral]
    rcases lt_or_ge d.leading 0 with low | high
    · simp only [decide_eq_true low, Option.map_some, Binary64.digitsOf, ofDigits_toDigits]
      omega
    · simp only [decide_eq_false (not_lt.2 high), Option.map_some, Binary64.digitsOf, ofDigits_toDigits]
      omega
  -- The leading digit stands before the point, so that every other one takes off a place.
  have exponent : d.leading - more.length = d.exponent := by
    rw [leading, Binary64.digitsOf, digits, List.length_cons]
    omega
  rw [ofDigits_numeral, tail, whole, List.singleton_append, ← digits, length, shift, exponent]
  exact ⟨ofDigitChars_digitsOf d.digits, rfl⟩

theorem magnitude_exponentSpelling (d : Decimal) :
    (d.exponentSpelling negative).numeral.magnitude = d.value := by
  obtain ⟨digits, place⟩ := parts_exponentSpelling negative d
  rw [Numeral.magnitude, value, digits, place]

/-- The spelling of a decimal spells its value. -/
theorem magnitude_spelling (d : Decimal) : (d.spelling negative).numeral.magnitude = d.value := by
  rw [spelling]
  split
  · exact magnitude_plainSpelling negative d
  · exact magnitude_exponentSpelling negative d

theorem value_lt (d : Decimal) : d.value < 10 ^ (d.leading + 1) := by
  have digits : d.digits < 10 ^ (Binary64.digitsOf d.digits).length :=
    (Nat.length_toDigits_le_iff (by decide) Nat.length_toDigits_pos).1 (le_refl _)
  have exponent : d.leading + 1 = (Binary64.digitsOf d.digits).length + d.exponent := by
    rw [leading]
    omega
  rw [value, exponent, zpow_add₀ (by norm_num), zpow_natCast]
  exact mul_lt_mul_of_pos_right (by exact_mod_cast digits) (zpow_pos (by norm_num) _)

/-- The digits before the point of a numeral without exponent are no more than what it spells. -/
theorem ofDigits_whole_le {n : Numeral} (plain : n.exponent = none) : Numeral.ofDigits n.whole ≤ n.magnitude := by
  have shift : n.shift = 0 := by rw [Numeral.shift, plain]
  rw [Numeral.magnitude, shift, Numeral.ofDigits_append, zero_sub, zpow_neg, zpow_natCast,
    ← div_eq_mul_inv, le_div_iff₀ (by positivity)]
  push_cast
  linarith [(Numeral.ofDigits (n.fraction.getD [])).cast_nonneg (α := ℚ)]

/-- The digits before the point of a spelled decimal fit 64 bits. -/
theorem ofDigits_whole_lt (d : Decimal) :
    Numeral.ofDigits (d.spelling negative).numeral.whole < 2 ^ (64 : ℕ) := by
  rw [spelling]
  split
  case isTrue plain =>
    -- Without an exponent a decimal is below 10¹⁶, which 64 bits can hold.
    have exponent : (d.plainSpelling negative).numeral.exponent = none := by
      rw [plainSpelling]
      split <;> rfl
    have whole := ofDigits_whole_le exponent
    rw [magnitude_plainSpelling] at whole
    have top : (10 : ℚ) ^ (d.leading + 1) ≤ 10 ^ (16 : ℤ) :=
      zpow_le_zpow_right₀ (by norm_num) (Int.add_one_le_of_lt plain.2)
    have small : (Numeral.ofDigits (d.plainSpelling negative).numeral.whole : ℚ) < 2 ^ 64 :=
      calc _ ≤ d.value := whole
        _ < 10 ^ (d.leading + 1) := d.value_lt
        _ ≤ 10 ^ (16 : ℤ) := top
        _ < 2 ^ 64 := by norm_num
    exact_mod_cast small
  case isFalse =>
    -- With an exponent a single digit stands before the point.
    obtain ⟨c, more, digits⟩ := List.exists_cons_of_ne_nil (isDigits_toDigits d.digits).1
    have digit := digitValue_lt ((isDigits_toDigits d.digits).2 c (digits ▸ List.mem_cons_self))
    have whole : (d.exponentSpelling negative).numeral.whole = [digitValue c] := by
      rw [Spelling.numeral, exponentSpelling, Binary64.digitsOf, digits]
      rfl
    rw [whole, Numeral.ofDigits_cons, List.length_nil, Numeral.ofDigits, List.foldl_nil]
    omega

/-- A spelled decimal has a point or an exponent, so it is never read as a whole number. -/
theorem value?_spelling (d : Decimal) : (d.spelling negative).numeral.value? =
    (d.spelling negative).numeral.double?.map .fraction := by
  refine Numeral.value?_eq_double? ?_
  rw [spelling]
  split
  · rw [plainSpelling]
    split <;> exact .inl rfl
  · exact .inr rfl

end Decimal

namespace Binary64

theorem normal_shortest (units : ℕ) : (shortest units).Normal := by
  intro none
  rcases eq_or_ne units 0 with rfl | nonzero
  · rw [shortest, if_pos rfl]
  · exact absurd none (shortest_digits_ne_zero nonzero)

/-- How a finite double is spelled. -/
def spelling (negative : Bool) (units : ℕ) : Spelling := (shortest units).spelling negative

theorem proper_spelling (negative : Bool) (units : ℕ) : (spelling negative units).Proper :=
  Decimal.proper_spelling negative (normal_shortest units)

theorem toList_text (negative : Bool) {units : ℕ} (fits : Fits units) :
    (Binary64.finite negative units fits).text.toList = (spelling negative units).chars := by
  have chars : (spelling negative units).chars =
      (if negative then ['-'] else []) ++ magnitudeText units := by
    rw [spelling, Decimal.spelling, magnitudeText, ← Decimal.leading]
    split
    · exact Decimal.chars_plainSpelling negative _
    · exact Decimal.chars_exponentSpelling negative _
  rw [chars, text]
  cases negative <;> simp

/-! ### The greatest doubles -/

/-- Up to three steps below 2¹⁰²⁴ three roundings do not lead past the greatest double. -/
theorem value_shortest_lt {units k : ℕ} (h : k = 2045) (low : units ≤ (2 ^ (53 : ℕ) - 3) * 2 ^ k) :
    (shortest units).value * (1 + roundoff) ^ 2 < brink := by
  obtain ⟨e, he⟩ : ∃ e, e + 1 = k := ⟨2044, by omega⟩
  have log : units.log2 - 52 ≤ k := by
    rcases eq_or_ne units 0 with rfl | nonzero
    · simp
    · have below : units < 2 ^ (53 + k) := by
        rw [Nat.pow_add]
        exact low.trans_lt (Nat.mul_lt_mul_of_pos_right (by decide) (Nat.two_pow_pos k))
      have := (Nat.log2_lt nonzero).2 below
      omega
  have step : (2 : ℚ) ^ (units.log2 - 52) ≤ 2 ^ k := pow_le_pow_right₀ one_le_two log
  have top : (units : ℚ) ≤ (2 ^ 53 - 3) * 2 ^ k := by
    have cast : (units : ℚ) ≤ (((2 ^ (53 : ℕ) - 3) * 2 ^ k : ℕ) : ℚ) := Nat.cast_le.2 low
    have factor : ((2 ^ (53 : ℕ) - 3 : ℕ) : ℚ) = 2 ^ 53 - 3 := by norm_num
    rwa [Nat.cast_mul, natCast_two_pow, factor] at cast
  -- The shortest decimal is off by at most half a step.
  have value : (shortest units).value * unitScale ≤ (2 ^ 53 - 5 / 2) * 2 ^ k :=
    calc (shortest units).value * unitScale ≤ units + 2 ^ (units.log2 - 52) / 2 :=
          sub_le_iff_le_add'.1 (abs_le.1 (abs_shortest_sub_le units)).2
      _ ≤ (2 ^ 53 - 3) * 2 ^ k + 2 ^ k / 2 := add_le_add top (div_le_div_of_nonneg_right step two_pos.le)
      _ = (2 ^ 53 - 5 / 2) * 2 ^ k := by ring
  -- In half steps: 2⁵⁴ - 5, rounded up twice, stays below 2⁵⁴ - 1.
  refine lt_of_mul_lt_mul_right ?_ unitScale_pos.le
  calc (shortest units).value * (1 + roundoff) ^ 2 * unitScale
      = (shortest units).value * unitScale * (1 + roundoff) ^ 2 := by ring
    _ ≤ (2 ^ 53 - 5 / 2) * 2 ^ k * (1 + roundoff) ^ 2 := mul_le_mul_of_nonneg_right value (by positivity)
    _ = (2 ^ 53 - 5 / 2) * (1 + roundoff) ^ 2 * 2 * 2 ^ e := by
      rw [← he, pow_succ]
      ring
    _ < (2 ^ 54 - 1) * 2 ^ e := mul_lt_mul_of_pos_right (by norm_num [roundoff]) (by positivity)
    _ = brink * unitScale := (brink_mul_unitScale (by omega)).symm

/-- The two greatest doubles, which are too near to the brink for an estimate, are read as well. -/
theorem isSome_double?_top (m : Fin 2) (negative : Bool) :
    (spelling negative ((2 ^ (53 : ℕ) - 1 - m) * 2 ^ (2045 : ℕ))).numeral.double?.isSome = true := by
  revert m negative
  decide +kernel

/-- No double is spelled as a numeral too large to be read. -/
theorem isSome_double?_spelling (negative : Bool) {units : ℕ} (fits : Fits units) :
    (spelling negative units).numeral.double?.isSome = true := by
  obtain ⟨k, hk⟩ : ∃ k : ℕ, k = 2045 := ⟨_, rfl⟩
  rcases Nat.lt_or_ge ((2 ^ (53 : ℕ) - 3) * 2 ^ k) units with high | low
  · have below := fits.1
    rw [overflow_eq (show 53 + k = 2098 by omega), Nat.pow_add] at below
    have wide : 2 ^ (52 + k) ≤ units := by
      rw [Nat.pow_add]
      exact (Nat.mul_le_mul_right _ (by decide)).trans high.le
    obtain ⟨m, rfl⟩ := dvd_of_two_pow_le fits.2 wide
    rw [Nat.mul_comm (2 ^ k)] at below high
    have less : m < 2 ^ (53 : ℕ) := Nat.lt_of_mul_lt_mul_right below
    have more : 2 ^ (53 : ℕ) - 3 < m := Nat.lt_of_mul_lt_mul_right high
    have top := isSome_double?_top ⟨2 ^ (53 : ℕ) - 1 - m, by omega⟩ negative
    dsimp only at top
    rwa [show 2 ^ (53 : ℕ) - 1 - (2 ^ (53 : ℕ) - 1 - m) = m by omega, ← hk, Nat.mul_comm] at top
  · refine Numeral.isSome_double? (Decimal.ofDigits_whole_lt negative _) ?_
    rw [spelling, Decimal.magnitude_spelling]
    exact value_shortest_lt hk low

/-! ### Reading back -/

/-- What a double becomes when it is written and read again. Those that are no numbers are not
read. -/
def reread : Binary64 → Binary64
  | .finite negative units fits =>
    (spelling negative units).numeral.double?.get (isSome_double?_spelling negative fits)
  | x => x

variable {x : Binary64}

/-- A finite double stays finite when it is written and read again. -/
theorem isFinite_reread (finite : x.isFinite = true) : x.reread.isFinite = true := by
  cases x with
  | nan => cases finite
  | infinity negative => cases finite
  | finite negative units fits => exact Numeral.isFinite_of_double? (Option.some_get _).symm

end Binary64

namespace Json

variable {x : Binary64} {s rest : List Char}

/-- The text of a finite double is read as `reread` says. -/
theorem double_text (finite : x.isFinite = true) (ends : EndsNumeral rest) :
    double (x.text.toList ++ rest) = .ok (x.reread, rest) := by
  cases x with
  | nan => cases finite
  | infinity negative => cases finite
  | finite negative units fits =>
    have value : (Binary64.spelling negative units).numeral.value? =
        some (.fraction (Binary64.reread (.finite negative units fits))) := by
      rw [Binary64.spelling, Decimal.value?_spelling, ← Binary64.spelling, Binary64.reread,
        ← Option.map_some, Option.some_get]
    have read := Spelling.numeric_chars (Binary64.proper_spelling negative units) ends value "f64"
    rw [Binary64.toList_text, double, read]
    rfl

/-- What is written for a double that is no number is refused. -/
theorem double_null (rest : List Char) :
    double ("null".toList ++ rest) = .error (.mismatch (.wrongType .null "f64")) := rfl

/-- Every double that is read is finite. -/
theorem isFinite_of_double (read : double s = .ok (x, rest)) : x.isFinite = true := by
  obtain ⟨⟨v, behind⟩, number, read⟩ := bind_eq_ok read
  obtain ⟨n, value⟩ := exists_of_numeric number
  have same : x = v.toDouble := by
    cases v <;> (cases read; rfl)
  exact same ▸ Numeral.isFinite_toDouble value

end Json

end Admission
