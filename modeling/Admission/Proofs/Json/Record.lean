import Admission.Proofs.Json.Spelling

/-!
# Reading records

An object that is written member by member is read back member by member; and what holds of a draft that
is blank, and is kept by each member that is read into it, holds of every draft from which a value is made.

## Main definitions

* `Json.objectChars`: an object as it is written, without blanks.
* `Json.Form.Fills`: members whose values are read into a draft, one after the other.

## Main results

* `Json.Form.record_objectChars`: an object is read as the draft that its members fill.
* `Json.Form.exists_draft_of_record`: what every draft of a record that is read has in common.
-/

namespace Admission.Json

-- Powers of natural numbers are the core library's, whatever else is in scope.
attribute [local instance (high)] instPowNat

/-- What a computation that has a value came to before. -/
theorem bind_eq_ok {ε α β : Type} {x : Except ε α} {f : α → Except ε β} {b : β}
    (read : x >>= f = .ok b) : ∃ a, x = .ok a ∧ f a = .ok b := by
  cases x with
  | error e => cases read
  | ok a => exact ⟨a, rfl, read⟩

/-- What goes on from no value to a value has none. -/
theorem bind_ne_ok {ε α β : Type} {x : Except ε α} {f : α → Except ε β} {b : β}
    (never : ∀ a, f a ≠ .ok b) : x >>= f ≠ .ok b := by
  intro read
  obtain ⟨a, -, read⟩ := bind_eq_ok read
  exact never a read

/-- The value that a computation has, where it can be decided only whether it is this one. -/
theorem eq_ok_of_toOption {ε α : Type} {x : Except ε α} {a : α} (value : x.toOption = some a) : x = .ok a := by
  cases x with
  | error e => cases value
  | ok b => exact congrArg _ (Option.some.inj value)

variable {s rest : List Char}

/-- A value that is taken for another was read before. -/
theorem convert_eq_ok {α β : Type} {reader : Reader α} {value? : α → Option β} {reason : Mismatch} {b : β} :
    convert reader value? reason s = .ok (b, rest) ↔
      ∃ a, reader s = .ok (a, rest) ∧ value? a = some b := by
  rw [convert]
  constructor
  · intro read
    obtain ⟨⟨a, behind⟩, first, read⟩ := bind_eq_ok read
    dsimp only at read
    split at read
    case h_1 value =>
      cases read
      exact ⟨a, first, value⟩
    case h_2 => cases read
  · rintro ⟨a, first, value⟩
    simp [first, value, Bind.bind, Except.bind]

/-- The value of a whole text was read off its head. -/
theorem exists_of_whole {α : Type} {reader : Reader α} {text : String} {a : α}
    (read : whole reader text = .ok a) : ∃ rest, reader text.toList = .ok (a, rest) := by
  rw [whole] at read
  obtain ⟨⟨value, rest⟩, first, read⟩ := bind_eq_ok read
  dsimp only at read
  split at read
  · cases read
    exact ⟨rest, first⟩
  · cases read

/-- A text is read as a whole if nothing is left of it. -/
theorem whole_eq_ok {α : Type} {reader : Reader α} {text : String} {a : α}
    (read : reader text.toList = .ok (a, [])) : whole reader text = .ok a := by
  rw [whole, read]
  rfl

/-- A text whose head is at fault is at the same fault. -/
theorem whole_eq_error {α : Type} {reader : Reader α} {text : String} {fault : Fault}
    (read : reader text.toList = .error fault) : whole reader text = .error fault := by
  rw [whole, read]
  rfl

/-- No value is read where a refusal is due. -/
theorem refuse_ne_ok {α : Type} {expected : String} {a : α} : refuse expected s ≠ .ok a := by
  -- Whatever stands there, the refusal follows it.
  have refused : ∀ found : Found, (Except.error (.mismatch (.wrongType found expected)) : Except Fault α) ≠
      .ok a := by simp
  unfold refuse
  dsimp only
  split
  iterate 4 exact bind_ne_ok fun _ => bind_ne_ok refused
  iterate 2 exact bind_ne_ok refused
  · split
    · exact bind_ne_ok fun _ => bind_ne_ok refused
    · exact bind_ne_ok refused
  · exact bind_ne_ok refused

/-- A number that is read is the value of a numeral. -/
theorem exists_of_numeric {expected : String} {v : Number} (read : numeric expected s = .ok (v, rest)) :
    ∃ n : Numeral, n.value? = some v := by
  rw [numeric] at read
  split at read
  · cases read
  · split at read
    · rw [number] at read
      split at read
      · cases read
      · split at read
        case h_1 numeral _ _ _ value =>
          cases read
          exact ⟨_, value⟩
        case h_2 => cases read
    · exact absurd read refuse_ne_ok

/-- A whole number that is read has no more bits than are wanted. -/
theorem lt_of_count {bits n : Nat} {expected : String} (read : count bits expected s = .ok (n, rest)) :
    n < 2 ^ bits := by
  rw [count] at read
  obtain ⟨⟨value, behind⟩, -, read⟩ := bind_eq_ok read
  cases value with
  | count n =>
    dsimp only at read
    split at read
    case isTrue fits =>
      cases read
      exact fits
    case isFalse => cases read
  | negative m => cases read
  | fraction x => cases read

/-! ### Names -/

/-- A character that stands for itself in a string. -/
def IsPlain (c : Char) : Prop := c ≠ '"' ∧ c ≠ '\\' ∧ 0x20 ≤ c.toNat

instance (c : Char) : Decidable (IsPlain c) := inferInstanceAs (Decidable (_ ∧ _ ∧ _))

/-- Whether a name stands for itself can be computed. -/
theorem isPlain_of_all {name : List Char} (all : name.all (fun c => decide (IsPlain c)) = true) :
    ∀ c ∈ name, IsPlain c := fun c mem => of_decide_eq_true (List.all_eq_true.1 all c mem)

theorem stringBody_plain {name : List Char} (plain : ∀ c ∈ name, IsPlain c) {fuel : Nat}
    (enough : name.length < fuel) : stringBody fuel (name ++ '"' :: rest) = .ok (name, rest) := by
  induction name generalizing fuel with
  | nil =>
    cases fuel with
    | zero => exact absurd enough (Nat.not_lt_zero _)
    | succ fuel => rfl
  | cons c name ih =>
    cases fuel with
    | zero => exact absurd enough (Nat.not_lt_zero _)
    | succ fuel =>
      rw [List.forall_mem_cons] at plain
      obtain ⟨⟨_, backslash, control⟩, later⟩ := plain
      have more := ih later (Nat.lt_of_succ_lt_succ enough)
      rw [List.cons_append, stringBody.eq_def]
      simp [backslash, Nat.not_lt_of_le control, more, Bind.bind, Except.bind, pure, Except.pure]

/-- A name of plain characters is read up to its closing quote. -/
theorem stringFrom_plain {name : String} (plain : ∀ c ∈ name.toList, IsPlain c) :
    stringFrom (name.toList ++ '"' :: rest) = .ok (name, rest) := by
  have enough : name.toList.length < (name.toList ++ '"' :: rest).length + 1 := by
    rw [List.length_append]
    omega
  have body : stringBody _ (name.toList ++ '"' :: rest) = .ok (name.toList, rest) :=
    stringBody_plain plain enough
  rw [stringFrom, body]
  simp [Bind.bind, Except.bind, pure, Except.pure]

/-! ### Objects -/

/-- A member as it is written, from behind the opening quote of its name. -/
def memberChars (member : String × List Char) : List Char := member.1.toList ++ '"' :: ':' :: member.2

/-- The members behind another one, and the closing brace. -/
def restChars : List (String × List Char) → List Char
  | [] => ['\x7d']
  | member :: more => ',' :: '"' :: memberChars member ++ restChars more

/-- An object as it is written. -/
def objectChars : List (String × List Char) → List Char
  | [] => ['\x7b', '\x7d']
  | member :: more => '\x7b' :: '"' :: memberChars member ++ restChars more

/-- A member ends before a comma or the closing brace. -/
def EndsMember (rest : List Char) : Prop := ∃ s, rest = ',' :: s ∨ rest = '\x7d' :: s

theorem EndsMember.endsNumeral (ends : EndsMember rest) : EndsNumeral rest := by
  obtain ⟨s, rfl | rfl⟩ := ends <;>
  · rintro c first
    cases first
    decide

theorem endsMember_restChars (members : List (String × List Char)) (rest : List Char) :
    EndsMember (restChars members ++ rest) := by
  cases members with
  | nil => exact ⟨rest, .inr rfl⟩
  | cons member more => exact ⟨_, .inl rfl⟩

namespace Form

variable {δ α : Type} {form : Form δ α} {draft next final : δ} {a : α}

/-- Members with plain names, none of them in the draft already, whose values are read into it one after
the other. -/
inductive Fills (form : Form δ α) : List (String × List Char) → δ → δ → Prop
  | nil (draft : δ) : Fills form [] draft draft
  | cons {name : String} {value : List Char} {more : List (String × List Char)} {draft next final : δ}
    (plain : ∀ c ∈ name.toList, IsPlain c) (known : name ∈ form.members)
    (absent : form.has name draft = false)
    (reads : ∀ rest, EndsMember rest → form.member name draft (value ++ rest) = .ok (next, rest))
    (later : Fills form more next final) : Fills form ((name, value) :: more) draft final

/-- A member of the form is read from behind the opening quote, or is at fault as its value is. -/
theorem readMember_memberChars {name : String} {value : List Char} (plain : ∀ c ∈ name.toList, IsPlain c)
    (known : name ∈ form.members) (absent : form.has name draft = false) :
    form.readMember draft (memberChars (name, value) ++ rest) = form.member name draft (value ++ rest) := by
  have read : stringFrom (memberChars (name, value) ++ rest) = .ok (name, ':' :: (value ++ rest)) := by
    rw [memberChars, List.append_assoc]
    exact stringFrom_plain plain
  rw [readMember, read]
  simp [Bind.bind, Except.bind, known, absent, skipBlanks, isBlank]

/-- The members behind another one are read up to the closing brace. -/
theorem readRest_restChars {members : List (String × List Char)} (fills : form.Fills members draft final)
    (made : form.finish final = .ok a) {fuel : Nat} (enough : members.length < fuel) :
    form.readRest fuel draft (restChars members ++ rest) = .ok (a, rest) := by
  induction fills generalizing fuel with
  | nil draft =>
    cases fuel with
    | zero => exact absurd enough (Nat.not_lt_zero _)
    | succ fuel =>
      simp [restChars, readRest, skipBlanks, isBlank, close, made, Bind.bind, Except.bind, pure, Except.pure]
  | @cons _ _ more _ _ _ plain known absent reads later ih =>
    cases fuel with
    | zero => exact absurd enough (Nat.not_lt_zero _)
    | succ fuel =>
      have read := (readMember_memberChars plain known absent).trans (reads _ (endsMember_restChars more rest))
      have more := ih made (Nat.lt_of_succ_lt_succ enough)
      simp [restChars, readRest, skipBlanks, isBlank, read, more, Bind.bind, Except.bind]

theorem length_le_restChars (members : List (String × List Char)) :
    members.length ≤ (restChars members).length := by
  induction members with
  | nil => exact Nat.zero_le _
  | cons member more ih =>
    simp only [restChars, List.length_append, List.length_cons]
    omega

/-- An object is read as the draft that its members fill. -/
theorem record_objectChars {members : List (String × List Char)} (fills : form.Fills members form.blank final)
    (made : form.finish final = .ok a) :
    form.record (objectChars members ++ rest) = .ok (a, rest) := by
  cases fills with
  | nil =>
    simp [objectChars, record, readObject, skipBlanks, isBlank, close, made, Bind.bind, Except.bind, pure,
      Except.pure]
  | @cons name value more _ next _ plain known absent reads later =>
    have read := (readMember_memberChars plain known absent).trans (reads _ (endsMember_restChars more rest))
    have enough : more.length < (restChars more ++ rest).length + 1 := by
      have := length_le_restChars more
      rw [List.length_append]
      omega
    have others : form.readRest _ _ (restChars more ++ rest) = .ok (a, rest) :=
      readRest_restChars later made enough
    simp only [List.length_append] at others
    simp [objectChars, record, readObject, skipBlanks, isBlank, read, others, Bind.bind, Except.bind]

/-- An object whose first member is at fault is at the same fault. -/
theorem record_objectChars_of_error {name : String} {value : List Char} {fault : Fault}
    (plain : ∀ c ∈ name.toList, IsPlain c) (known : name ∈ form.members) (absent : form.has name form.blank = false)
    (reads : ∀ rest, form.member name form.blank (value ++ rest) = .error fault)
    (more : List (String × List Char)) :
    form.record (objectChars ((name, value) :: more) ++ rest) = .error fault := by
  have read := (readMember_memberChars plain known absent).trans (reads (restChars more ++ rest))
  simp [objectChars, record, readObject, skipBlanks, isBlank, read, Bind.bind, Except.bind]

/-! ### Drafts -/

/-- The draft of a value was finished. -/
theorem finish_of_close (closed : form.close draft = .ok a) : form.finish draft = .ok a := by
  rw [close] at closed
  split at closed
  case h_1 finished =>
    cases closed
    exact finished
  case h_2 => cases closed

section Invariant

variable {P : δ → Prop}
  (kept : ∀ name ∈ form.members, ∀ {draft next s rest}, P draft →
    form.member name draft s = .ok (next, rest) → P next)

include kept

theorem readMember_kept (holds : P draft) (read : form.readMember draft s = .ok (next, rest)) : P next := by
  rw [readMember] at read
  obtain ⟨⟨key, s⟩, -, read⟩ := bind_eq_ok read
  dsimp only at read
  split at read
  · cases read
  · split at read
    · cases read
    · split at read
      · cases read
      · split at read
        case isTrue known => exact kept key known holds read
        case isFalse =>
          obtain ⟨_, -, read⟩ := bind_eq_ok read
          cases read
          exact holds
      · cases read

theorem readRest_kept {fuel : Nat} (holds : P draft) (read : form.readRest fuel draft s = .ok (a, rest)) :
    ∃ draft, P draft ∧ form.finish draft = .ok a := by
  induction fuel generalizing draft s with
  | zero => cases read
  | succ fuel ih =>
    rw [readRest] at read
    split at read
    · cases read
    · obtain ⟨value, closed, read⟩ := bind_eq_ok read
      cases read
      exact ⟨draft, holds, finish_of_close closed⟩
    · split at read
      · cases read
      · obtain ⟨⟨next, s⟩, member, read⟩ := bind_eq_ok read
        exact ih (readMember_kept kept holds member) read
      · cases read
    · cases read

theorem readObject_kept (blank : P form.blank) (read : form.readObject s = .ok (a, rest)) :
    ∃ draft, P draft ∧ form.finish draft = .ok a := by
  rw [readObject] at read
  split at read
  · cases read
  · obtain ⟨value, closed, read⟩ := bind_eq_ok read
    cases read
    exact ⟨_, blank, finish_of_close closed⟩
  · obtain ⟨⟨next, s⟩, member, read⟩ := bind_eq_ok read
    exact readRest_kept kept (readMember_kept kept blank member) read
  · cases read

theorem readItems_kept {names : List String} (known : ∀ name ∈ names, name ∈ form.members) {seen : Nat}
    (holds : P draft) (read : form.readItems seen draft names s = .ok (a, rest)) :
    ∃ draft, P draft ∧ form.finish draft = .ok a := by
  induction names generalizing seen draft s with
  | nil =>
    rw [readItems] at read
    obtain ⟨value, closed, read⟩ := bind_eq_ok read
    obtain ⟨_, -, read⟩ := bind_eq_ok read
    cases read
    exact ⟨draft, holds, finish_of_close closed⟩
  | cons name names ih =>
    rw [List.forall_mem_cons] at known
    -- Whatever stands before an item, reading goes on behind it.
    have item : ∀ {s : List Char}, (form.member name draft s >>= fun read =>
        form.readItems (seen + 1) read.1 names read.2) = .ok (a, rest) →
        ∃ draft, P draft ∧ form.finish draft = .ok a := by
      intro s read
      obtain ⟨⟨next, s⟩, member, read⟩ := bind_eq_ok read
      exact ih known.2 (kept name known.1 holds member) read
    rw [readItems] at read
    split at read
    · cases read
    · split at read
      · obtain ⟨value, closed, read⟩ := bind_eq_ok read
        cases read
        exact ⟨draft, holds, finish_of_close closed⟩
      · cases read
    · split at read
      · exact item read
      · split at read
        · split at read
          · cases read
          · cases read
          · exact item read
        · cases read

end Invariant

/-- What holds of the blank draft and is kept by every member that is read into a draft holds of the draft
that a value is made of. -/
theorem exists_draft_of_record {P : δ → Prop} (blank : P form.blank)
    (kept : ∀ name ∈ form.members, ∀ {draft next s rest}, P draft →
      form.member name draft s = .ok (next, rest) → P next)
    (read : form.record s = .ok (a, rest)) : ∃ draft, P draft ∧ form.finish draft = .ok a := by
  rw [record] at read
  split at read
  · cases read
  · exact readObject_kept kept blank read
  · exact readItems_kept kept (fun _ known => known) blank read
  · exact absurd read refuse_ne_ok

end Form

end Admission.Json
