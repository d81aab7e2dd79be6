import Admission.Proofs.Codec.Reread
import Admission.Proofs.Codec.Standing

/-!
# Standings written and read again

A standing is written unless one of its instants lies before the epoch. What is written is read with the same
instants and with credits that were reread; credits that are no finite number are refused. Rereading need not give the
same credits: the numeral is right, but it is read through several roundings. Whatever is read can be written.

## Main results

* `Standing.decode_of_encode`: what the text of a standing is read as.
* `Standing.decode_encode`: what becomes of a standing that is written and read again.
-/

namespace Admission.Standing

open Json

-- Powers of natural numbers are the core library's, whatever else is in scope.
attribute [local instance (high)] instPowNat

variable {s : Standing} {text : String}

/-- Where no instant lies before the epoch, there is a text, which begins with the credits. -/
theorem exists_encode_of_le (late : 0 ≤ s.lastUpdate.nanos) (late' : 0 ≤ s.created.nanos) :
    ∃ text more, s.encode = .ok text ∧
      text.toList = objectChars (("credits", (encodeCredits s.credits).toList) :: more) := by
  obtain ⟨_, updated, -⟩ := Instant.encode?_eq late
  obtain ⟨_, created, -⟩ := Instant.encode?_eq late'
  obtain ⟨text, written, chars⟩ := encode_eq updated created
  exact ⟨text, _, written, chars⟩

/-- A standing is written unless one of its instants lies before the epoch. -/
theorem exists_encode_iff : (∃ text, s.encode = .ok text) ↔ 0 ≤ s.lastUpdate.nanos ∧ 0 ≤ s.created.nanos := by
  constructor
  · rintro ⟨text, written⟩
    rw [encode] at written
    split at written
    case h_1 updated created =>
      exact ⟨Instant.le_of_encode? updated, Instant.le_of_encode? created⟩
    case h_2 => cases written
  · rintro ⟨late, late'⟩
    obtain ⟨text, _, written, -⟩ := exists_encode_of_le late late'
    exact ⟨text, written⟩

/-- Credits that are no finite number are written as what no double is read from. -/
theorem decode_of_not_isFinite (written : s.encode = .ok text) (endless : s.credits.isFinite = false) :
    decode text = .error (.mismatch (.wrongType .null "f64")) := by
  obtain ⟨late, late'⟩ := exists_encode_iff.1 ⟨text, written⟩
  obtain ⟨_, more, same, chars⟩ := exists_encode_of_le late late'
  cases written.symm.trans same
  refine whole_eq_error ?_
  rw [← List.append_nil text.toList, chars, encodeCredits, if_neg (by rw [endless]; exact Bool.false_ne_true)]
  refine Form.record_objectChars_of_error (isPlain_of_all (by decide)) (by simp [form]) (by simp [form])
    (fun rest => ?_) more
  simp only [form, if_pos, double_null]
  rfl

/-- What the text of a standing is read as. -/
theorem decode_of_encode (written : s.encode = .ok text) : decode text =
    if s.credits.isFinite then .ok { s with credits := s.credits.reread }
    else .error (.mismatch (.wrongType .null "f64")) := by
  split
  case isTrue finite =>
    obtain ⟨late, late'⟩ := exists_encode_iff.1 ⟨text, written⟩
    obtain ⟨_, same, read⟩ := exists_encode ⟨finite, late, late'⟩
    cases written.symm.trans same
    exact read
  case isFalse endless => exact decode_of_not_isFinite written (Bool.eq_false_iff.2 endless)

/-- A standing can be written when none of its instants lies before the epoch. Its text is read, with the same
instants, when its credits are finite. The credits that are read are beside those that were written, and are the same
if their decimal is short, as those of zero and of whole numbers are that leave room for one more digit. Whatever is
read, from any text, is finite and can be written. -/
theorem decode_encode (s : Standing) :
    ((∃ text, s.encode = .ok text) ↔ 0 ≤ s.lastUpdate.nanos ∧ 0 ≤ s.created.nanos) ∧
      (∀ text, s.encode = .ok text → decode text =
        if s.credits.isFinite then .ok { s with credits := s.credits.reread }
        else .error (.mismatch (.wrongType .null "f64"))) ∧
      (s.credits.isFinite = true → s.credits.Beside s.credits.reread) ∧
      (s.credits.Short → s.credits.reread = s.credits) ∧
      ((∀ negative, (Binary64.zero negative).Short) ∧ ∀ n, n * 10 ≤ 2 ^ (53 : ℕ) → (Binary64.ofNat n).Short) ∧
      ∀ text r, decode text = .ok r → r.Storable ∧ ∃ again, r.encode = .ok again := by
  refine ⟨exists_encode_iff, fun _ written => decode_of_encode written, Binary64.beside_reread,
    Binary64.reread_eq_self, ⟨Binary64.short_zero, fun _ => Binary64.short_ofNat⟩, fun text r read => ?_⟩
  have storable := storable_of_decode read
  obtain ⟨again, written, -⟩ := exists_encode storable
  exact ⟨storable, again, written⟩

/-- The greatest double below one is read as one. -/
theorem decode_encode_drifting :
    let s : Standing := ⟨.ofBits 0x3fefffffffffffff, .epoch, .epoch⟩
    (∃ text, s.encode = .ok text ∧ decode text = .ok { s with credits := 1 }) ∧
      s.credits ≠ 1 ∧ s.credits.Beside 1 := by
  intro s
  obtain ⟨written, read, near, -, -, -⟩ := decode_encode s
  have finite : s.credits.isFinite = true := by decide +kernel
  have one : s.credits.reread = 1 := by decide +kernel
  obtain ⟨text, encoded⟩ := written.2 ⟨le_refl _, le_refl _⟩
  refine ⟨⟨text, encoded, ?_⟩, by decide +kernel, one ▸ near finite⟩
  rw [read text encoded, if_pos finite, one]

end Admission.Standing
