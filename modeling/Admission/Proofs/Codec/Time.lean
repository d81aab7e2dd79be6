import Mathlib.Data.Nat.Notation
import Mathlib.Tactic.ByContra
import Admission.Codec.Time
import Admission.Proofs.Json.Record

/-!
# Durations and instants in JSON

What is written as whole seconds and nanoseconds below a billion is read as the same span of time. So every
duration survives being written, and so does every instant that does not lie before the epoch.

## Main results

* `Json.record_spanForm`: a span of time is read from the digits of its seconds and nanoseconds.
* `Duration.record_encode`: a duration survives being written.
* `Instant.reader_encode`: an instant survives being written.
* `Instant.le_of_encode?`, `Instant.le_of_reader`: no instant before the epoch is written or read.
-/

namespace Admission

open Json

-- Powers of natural numbers are the core library's, whatever else is in scope.
attribute [local instance (high)] instPowNat

section Span

variable {name secs nanos : String} {tooLong : Mismatch} {rest : List Char}

/-- A span of time is read from the digits of its seconds and nanoseconds. -/
theorem Json.record_spanForm {d : Duration} {whole part : ℕ} (distinct : nanos ≠ secs)
    (plain : ∀ c ∈ secs.toList, IsPlain c) (plain' : ∀ c ∈ nanos.toList, IsPlain c)
    (long : whole < 2 ^ (64 : ℕ)) (short : part < nanosPerSecond)
    (made : d.nanos = nanosPerSecond * whole + part) :
    (spanForm name secs nanos tooLong).record
      (objectChars [(secs, Nat.toDigits 10 whole), (nanos, Nat.toDigits 10 part)] ++ rest) =
        .ok (d, rest) := by
  have small : part < 2 ^ (32 : ℕ) := Nat.lt_trans short (by decide)
  have fills : (spanForm name secs nanos tooLong).Fills
      [(secs, Nat.toDigits 10 whole), (nanos, Nat.toDigits 10 part)] ⟨none, none⟩ ⟨some whole, some part⟩ := by
    have later : (spanForm name secs nanos tooLong).Fills [(nanos, Nat.toDigits 10 part)]
        ⟨some whole, none⟩ ⟨some whole, some part⟩ := by
      refine .cons plain' (List.mem_cons_of_mem _ List.mem_cons_self) ?_ (fun rest ends => ?_) (.nil _)
      · simp [spanForm, distinct]
      · simp [spanForm, distinct, count_toDigits (Nat.lt_trans small (by decide)) small ends.endsNumeral,
          Bind.bind, Except.bind, pure, Except.pure]
    refine .cons plain List.mem_cons_self ?_ (fun rest ends => ?_) later
    · simp [spanForm]
    · simp [spanForm, count_toDigits long long ends.endsNumeral, Bind.bind, Except.bind, pure, Except.pure]
  refine Form.record_objectChars fills ?_
  have read : Duration.ofNanos? (nanosPerSecond * whole + part) = some d := by
    rw [← made, Duration.ofNanos?, dif_pos d.nanos_lt]
  simp [spanForm, read]

end Span

/-- A duration is read as it was written. -/
theorem Duration.record_encode (d : Duration) (rest : List Char) :
    form.record (d.encode.toList ++ rest) = .ok (d, rest) := by
  have chars : d.encode.toList = objectChars [("secs", Nat.toDigits 10 d.wholeSeconds),
      ("nanos", Nat.toDigits 10 d.subsecNanos)] := by
    simp [encode, objectChars, memberChars, restChars]
  have long : d.wholeSeconds < 2 ^ (64 : ℕ) := Nat.div_lt_of_lt_mul (Nat.mul_comm _ _ ▸ d.nanos_lt)
  have short : d.subsecNanos < nanosPerSecond := Nat.mod_lt _ (by decide)
  have parts : d.nanos = nanosPerSecond * d.wholeSeconds + d.subsecNanos := (Nat.div_add_mod _ _).symm
  rw [chars]
  exact record_spanForm (by decide) (isPlain_of_all (by decide)) (isPlain_of_all (by decide)) long short parts

namespace Instant

variable {t : Instant} {s rest : List Char}

/-- An instant after the epoch as it is written. -/
theorem encode?_eq (late : 0 ≤ t.nanos) : ∃ text, t.encode? = some text ∧ text.toList =
    objectChars [("secs_since_epoch", Nat.toDigits 10 t.unixSeconds.toNat),
      ("nanos_since_epoch", Nat.toDigits 10 t.subsecNanos)] := by
  refine ⟨_, if_pos late, ?_⟩
  simp [objectChars, memberChars, restChars]

/-- No instant before the epoch is written. -/
theorem le_of_encode? {text : String} (written : t.encode? = some text) : 0 ≤ t.nanos := by
  by_contra early
  rw [encode?, if_neg early] at written
  cases written

/-- An instant after the epoch is read as it was written. -/
theorem reader_encode {text : String} (written : t.encode? = some text) :
    reader (text.toList ++ rest) = .ok (t, rest) := by
  have late := le_of_encode? written
  obtain ⟨_, same, chars⟩ := encode?_eq late
  cases written.symm.trans same
  have below := t.nanos_lt
  -- The instant is an offset from the epoch whose seconds fit 64 bits.
  obtain ⟨offset, made⟩ : ∃ d : Duration, d.nanos = t.nanos.toNat :=
    ⟨⟨t.nanos.toNat, by simp only [reach, nanosPerSecond] at below ⊢; omega⟩, rfl⟩
  have long : t.unixSeconds.toNat < 2 ^ (64 : ℕ) := by
    simp only [unixSeconds, reach, nanosPerSecond] at below ⊢
    omega
  have short : t.subsecNanos < nanosPerSecond := by
    simp only [subsecNanos, nanosPerSecond]
    omega
  have parts : offset.nanos = nanosPerSecond * t.unixSeconds.toNat + t.subsecNanos := by
    rw [made]
    simp only [unixSeconds, subsecNanos, nanosPerSecond]
    omega
  have read : offsetForm.record (objectChars [("secs_since_epoch", Nat.toDigits 10 t.unixSeconds.toNat),
      ("nanos_since_epoch", Nat.toDigits 10 t.subsecNanos)] ++ rest) = .ok (offset, rest) :=
    record_spanForm (by decide) (isPlain_of_all (by decide)) (isPlain_of_all (by decide)) long short parts
  have add : epoch.add? offset = some t := by
    have nanos : epoch.nanos + offset.nanos = t.nanos := by
      have start : epoch.nanos = 0 := rfl
      omega
    rw [add?, nanos, ofNanos?, dif_pos ⟨t.le_nanos, t.nanos_lt⟩]
  rw [chars]
  exact convert_eq_ok.2 ⟨offset, read, add⟩

/-- No instant before the epoch is read. -/
theorem le_of_reader (read : reader s = .ok (t, rest)) : 0 ≤ t.nanos := by
  obtain ⟨offset, -, added⟩ := convert_eq_ok.1 read
  have moved := nanos_ofNanos? added
  have start : epoch.nanos = 0 := rfl
  omega

end Instant

end Admission
