import Admission.Json.Reader

/-!
# Spelling numerals

A numeral that is spelled out, with nothing behind it that could belong to it, is lexed as it was
spelled.

## Main definitions

* `Json.Spelling`: the characters of a numeral, part by part.
* `Json.Spelling.Proper`: the spellings that JSON allows.
* `Json.Spelling.ofNat`: the spelling of a natural number.
* `Json.EndsNumeral`: the texts that can stand behind a numeral.

## Main results

* `Json.Spelling.lex_chars`: a proper spelling is lexed as its numeral.
* `Json.Spelling.numeric_chars`: it is read as the value of the numeral.
* `Json.count_toDigits`: the digits of a natural number are read as that number.
-/

namespace Admission.Json

-- Powers of natural numbers are the core library's, whatever else is in scope.
attribute [local instance (high)] instPowNat

/-- Whether a numeral ends before a text, which neither continues it nor begins another part of it. -/
def EndsNumeral (rest : List Char) : Prop :=
  ∀ c ∈ rest.head?, c.isDigit = false ∧ c ≠ '.' ∧ c ≠ 'e' ∧ c ≠ 'E'

/-- The value of a digit. -/
def digitValue (c : Char) : Nat := c.toNat - '0'.toNat

theorem toNat_of_isDigit {c : Char} (digit : c.isDigit = true) :
    '0'.toNat ≤ c.toNat ∧ c.toNat ≤ '9'.toNat := by
  simp only [Char.isDigit, Bool.and_eq_true, decide_eq_true_eq, ge_iff_le, UInt32.le_iff_toNat_le] at digit
  exact digit

/-- The only digit without a value is zero. -/
theorem eq_zero_of_digitValue {c : Char} (digit : c.isDigit = true) (value : digitValue c = 0) :
    c = '0' := by
  have low := (toNat_of_isDigit digit).1
  rw [digitValue] at value
  exact Char.ext (UInt32.toNat.inj (show c.toNat = '0'.toNat by omega))

theorem digitValue_lt {c : Char} (digit : c.isDigit = true) : digitValue c < 10 := by
  have high : c.toNat ≤ '0'.toNat + 9 := (toNat_of_isDigit digit).2
  rw [digitValue]
  omega

/-! ### Digits -/

variable {digits rest : List Char}

/-- Digits are taken off the head of a text up to what is no digit. -/
theorem takeDigits_append (all : ∀ c ∈ digits, c.isDigit = true)
    (stop : ∀ c ∈ rest.head?, c.isDigit = false) :
    takeDigits (digits ++ rest) = (digits.map digitValue, rest) := by
  induction digits with
  | nil =>
    cases rest with
    | nil => rfl
    | cons c rest => simp [takeDigits, digit?, stop c rfl]
  | cons c digits ih =>
    rw [List.forall_mem_cons] at all
    simp [takeDigits, digit?, digitValue, all.1, ih all.2]

theorem Numeral.someDigits_append (all : ∀ c ∈ digits, c.isDigit = true) (some : digits ≠ [])
    (stop : ∀ c ∈ rest.head?, c.isDigit = false) :
    Numeral.someDigits (digits ++ rest) = .ok (digits.map digitValue, rest) := by
  obtain ⟨c, digits, rfl⟩ := List.exists_cons_of_ne_nil some
  rw [Numeral.someDigits, takeDigits_append all stop]
  rfl

/-! ### Spellings -/

/-- The characters of a numeral: sign, whole digits, digits after the point, and an exponent with its
sign. -/
structure Spelling where
  negative : Bool
  whole : List Char
  fraction : Option (List Char)
  exponent : Option (Bool × List Char)
  deriving DecidableEq

namespace Spelling

/-- The point and the digits behind it. -/
def fractionChars : Option (List Char) → List Char
  | none => []
  | some digits => '.' :: digits

/-- The exponent with its sign. -/
def exponentChars : Option (Bool × List Char) → List Char
  | none => []
  | some (negative, digits) => 'e' :: (if negative then '-' else '+') :: digits

/-- All characters of a numeral. -/
def chars (p : Spelling) : List Char :=
  (if p.negative then ['-'] else []) ++ p.whole ++ fractionChars p.fraction ++ exponentChars p.exponent

/-- The numeral that is spelled. -/
def numeral (p : Spelling) : Numeral where
  negative := p.negative
  whole := p.whole.map digitValue
  fraction := p.fraction.map (·.map digitValue)
  exponent := p.exponent.map fun e => (e.1, e.2.map digitValue)

/-- At least one digit and nothing else. -/
def IsDigits (digits : List Char) : Prop := digits ≠ [] ∧ ∀ c ∈ digits, c.isDigit = true

/-- Every part has a digit, and a zero before the point stands alone. -/
structure Proper (p : Spelling) : Prop where
  whole : IsDigits p.whole
  noLeadingZero : p.whole.head? = some '0' → p.whole = ['0']
  fraction : ∀ digits ∈ p.fraction, IsDigits digits
  exponent : ∀ e ∈ p.exponent, IsDigits e.2

theorem lexExponent_chars {e : Option (Bool × List Char)} (proper : ∀ x ∈ e, IsDigits x.2)
    (ends : EndsNumeral rest) :
    Numeral.lexExponent (exponentChars e ++ rest) =
      .ok (e.map fun x => (x.1, x.2.map digitValue), rest) := by
  have stop : ∀ c ∈ rest.head?, c.isDigit = false := fun c first => (ends c first).1
  cases e with
  | none =>
    cases rest with
    | nil => rfl
    | cons c rest =>
      obtain ⟨-, -, lower, upper⟩ := ends c rfl
      simp [exponentChars, Numeral.lexExponent, lower, upper]
  | some e =>
    obtain ⟨negative, digits⟩ := e
    obtain ⟨some, all⟩ := proper _ rfl
    cases negative <;>
      simp [exponentChars, Numeral.lexExponent, Numeral.someDigits_append all some stop,
        Bind.bind, Except.bind, pure, Except.pure]

theorem lexFraction_chars {f : Option (List Char)} (proper : ∀ digits ∈ f, IsDigits digits)
    (stop : ∀ c ∈ rest.head?, c.isDigit = false ∧ c ≠ '.') :
    Numeral.lexFraction (fractionChars f ++ rest) = .ok (f.map (·.map digitValue), rest) := by
  cases f with
  | none =>
    cases rest with
    | nil => rfl
    | cons c rest =>
      rw [fractionChars, List.nil_append, Numeral.lexFraction]
      · rfl
      · rintro s same
        exact (stop c rfl).2 (List.cons.inj same).1
  | some digits =>
    obtain ⟨some, all⟩ := proper _ rfl
    simp [fractionChars, Numeral.lexFraction,
      Numeral.someDigits_append all some fun c first => (stop c first).1,
      Bind.bind, Except.bind, pure, Except.pure]

/-- What stands behind the fraction is the exponent or the end. -/
theorem exponentChars_stop {e : Option (Bool × List Char)} (ends : EndsNumeral rest) :
    ∀ c ∈ (exponentChars e ++ rest).head?, c.isDigit = false ∧ c ≠ '.' := by
  cases e with
  | none => exact fun c first => ⟨(ends c first).1, (ends c first).2.1⟩
  | some e =>
    rintro c first
    cases first
    decide

/-- What stands behind the whole digits is the point, the exponent or the end. -/
theorem fractionChars_stop {f : Option (List Char)} {e : Option (Bool × List Char)}
    (ends : EndsNumeral rest) :
    ∀ c ∈ (fractionChars f ++ (exponentChars e ++ rest)).head?, c.isDigit = false := by
  cases f with
  | none => exact fun c first => (exponentChars_stop ends c first).1
  | some digits =>
    rintro c first
    cases first
    decide

theorem lexWhole_append (proper : IsDigits digits) (zero : digits.head? = some '0' → digits = ['0'])
    (stop : ∀ c ∈ rest.head?, c.isDigit = false) :
    Numeral.lexWhole (digits ++ rest) = .ok (digits.map digitValue, rest) := by
  obtain ⟨some, all⟩ := proper
  rw [Numeral.lexWhole, Numeral.someDigits_append all some stop]
  simp only [Bind.bind, Except.bind]
  split
  case h_1 second later spelled =>
    -- A zero that is followed by another digit is not proper.
    obtain ⟨c, digits, rfl⟩ := List.exists_cons_of_ne_nil some
    obtain ⟨value, more⟩ := List.cons.inj spelled
    have alone := zero (congrArg Option.some (eq_zero_of_digitValue (all c List.mem_cons_self) value))
    rw [(List.cons.inj alone).2] at more
    cases more
  case h_2 => rfl

/-- A numeral that is spelled properly is lexed as it was spelled. -/
theorem lex_chars {p : Spelling} (proper : p.Proper) (ends : EndsNumeral rest) :
    Numeral.lex (p.chars ++ rest) = .ok (p.numeral, rest) := by
  obtain ⟨negative, whole, fraction, exponent⟩ := p
  obtain ⟨digits, zero, digits', digits''⟩ := proper
  have parts : Numeral.lexWhole (whole ++ (fractionChars fraction ++ (exponentChars exponent ++ rest))) =
      .ok (whole.map digitValue, fractionChars fraction ++ (exponentChars exponent ++ rest)) :=
    lexWhole_append digits zero (fractionChars_stop ends)
  -- A digit comes first, which cannot be taken for a sign.
  have unsigned : ∀ s s', whole ++ s ≠ '-' :: s' := by
    obtain ⟨some, all⟩ := digits
    obtain ⟨c, whole, rfl⟩ := List.exists_cons_of_ne_nil some
    rintro s s' same
    have minus := all c List.mem_cons_self
    rw [(List.cons.inj same).1] at minus
    cases minus
  have read : Numeral.lexUnsigned negative
      (whole ++ (fractionChars fraction ++ (exponentChars exponent ++ rest))) =
        .ok (numeral ⟨negative, whole, fraction, exponent⟩, rest) := by
    simp [Numeral.lexUnsigned, parts, lexFraction_chars digits' (exponentChars_stop ends),
      lexExponent_chars digits'' ends, Bind.bind, Except.bind, pure, Except.pure, numeral]
  rw [chars, List.append_assoc, List.append_assoc, List.append_assoc]
  cases negative with
  | true => exact read
  | false =>
    rw [if_neg Bool.false_ne_true, List.nil_append, Numeral.lex]
    · exact read
    · exact unsigned _

/-! ### Reading -/

/-- A numeral begins with what no blank is and with what begins no other value. -/
theorem exists_cons_chars {p : Spelling} (proper : p.Proper) :
    ∃ c s, p.chars = c :: s ∧ isBlank c = false ∧ (c = '-' ∨ c.isDigit = true) := by
  obtain ⟨negative, whole, fraction, exponent⟩ := p
  cases negative with
  | true => exact ⟨'-', _, rfl, by decide, .inl rfl⟩
  | false =>
    obtain ⟨some, all⟩ := proper.whole
    obtain ⟨c, digits, rfl⟩ := List.exists_cons_of_ne_nil some
    have digit := all c List.mem_cons_self
    refine ⟨c, _, rfl, ?_, .inr digit⟩
    have ne : ∀ d : Char, d.isDigit = false → c ≠ d := by
      rintro d no rfl
      exact absurd digit (by rw [no]; exact Bool.false_ne_true)
    simp [isBlank, ne ' ' (by decide), ne '\n' (by decide), ne '\t' (by decide), ne '\r' (by decide)]

/-- A numeral that is spelled properly is read as its value. -/
theorem numeric_chars {p : Spelling} (proper : p.Proper) (ends : EndsNumeral rest) {v : Number}
    (value : p.numeral.value? = some v) (expected : String) :
    numeric expected (p.chars ++ rest) = .ok (v, rest) := by
  obtain ⟨c, s, chars, blank, first⟩ := exists_cons_chars proper
  have lexed := lex_chars proper ends
  rw [chars, List.cons_append] at lexed ⊢
  rw [numeric, skipBlanks, List.dropWhile_cons_of_neg (by rw [blank]; exact Bool.false_ne_true)]
  dsimp only
  rw [if_pos first, number, lexed]
  dsimp only
  rw [value]

end Spelling

/-! ### Natural numbers -/

theorem isDigits_toDigits (n : Nat) : Spelling.IsDigits (Nat.toDigits 10 n) :=
  ⟨Nat.toDigits_ne_nil, fun _ => Nat.isDigit_of_mem_toDigits (by decide) (by decide)⟩

/-- Only zero is written with a leading zero. -/
theorem head?_toDigits_ne {n : Nat} (nonzero : n ≠ 0) : (Nat.toDigits 10 n).head? ≠ some '0' := by
  induction n using Nat.strongRecOn with
  | ind n ih =>
    rw [Nat.toDigits_eq_if (by decide)]
    split
    case isTrue small =>
      rw [List.head?_cons, ne_eq, Option.some.injEq, Nat.digitChar_eq_zero]
      exact nonzero
    case isFalse large =>
      have more : n / 10 ≠ 0 := by omega
      have first := ih (n / 10) (by omega) more
      obtain ⟨c, digits, spelled⟩ := List.exists_cons_of_ne_nil (Nat.toDigits_ne_nil (n := n / 10) (b := 10))
      rwa [spelled] at first ⊢

theorem ofDigits_map_digitValue (digits : List Char) :
    Numeral.ofDigits (digits.map digitValue) = Nat.ofDigitChars 10 digits 0 := by
  rw [Numeral.ofDigits, Nat.ofDigitChars, List.foldl_map]
  simp only [digitValue, Nat.mul_comm]

/-- The digits of a natural number spell it. -/
theorem ofDigits_toDigits (n : Nat) : Numeral.ofDigits ((Nat.toDigits 10 n).map digitValue) = n := by
  rw [ofDigits_map_digitValue, Nat.ofDigitChars_toDigits (by decide) (by decide)]

/-- The spelling of a natural number. -/
def Spelling.ofNat (n : Nat) : Spelling where
  negative := false
  whole := Nat.toDigits 10 n
  fraction := none
  exponent := none

theorem Spelling.chars_ofNat (n : Nat) : (ofNat n).chars = Nat.toDigits 10 n := by
  simp [chars, ofNat, fractionChars, exponentChars]

theorem Spelling.proper_ofNat (n : Nat) : (ofNat n).Proper where
  whole := isDigits_toDigits n
  noLeadingZero zero := by
    rcases Nat.eq_zero_or_pos n with rfl | positive
    · rfl
    · exact absurd zero (head?_toDigits_ne (Nat.ne_of_gt positive))
  fraction := by simp [ofNat]
  exponent := by simp [ofNat]

/-- The digits of a natural number of 64 bits are read as that number. -/
theorem count_toDigits {n bits : Nat} (word : n < 2 ^ (64 : Nat)) (fits : n < 2 ^ bits)
    (ends : EndsNumeral rest) (expected : String) :
    count bits expected (Nat.toDigits 10 n ++ rest) = .ok (n, rest) := by
  have value : (Spelling.ofNat n).numeral.value? = some (.count (.ofNat n)) := by
    simp only [Spelling.numeral, Spelling.ofNat, Numeral.value?, Option.map_none, ofDigits_toDigits,
      if_pos word, if_neg Bool.false_ne_true]
  have read := Spelling.numeric_chars (Spelling.proper_ofNat n) ends value expected
  rw [Spelling.chars_ofNat] at read
  have same : (UInt64.ofNat n).toNat = n := UInt64.toNat_ofNat_of_lt' word
  rw [count, read]
  simp [Bind.bind, Except.bind, same, fits]

end Admission.Json
