import Admission.Codec.Standing
import Admission.Proofs.Codec.Double
import Admission.Proofs.Codec.Time

/-!
# Standings in JSON

A standing whose credits are finite and whose instants do not lie before the epoch has a text, and that
text is read as the same standing, except that its credits were read again. Conversely only such
standings are ever read.

## Main definitions

* `Standing.Storable`: the standings that can be read.
* `Standing.retold`: what a standing becomes when it is written and read again.

## Main results

* `Standing.exists_encode`: a storable standing is written, and read as `retold` says.
* `Standing.storable_of_decode`: what is read is storable.
-/

namespace Admission

open Json

-- Powers of natural numbers are the core library's, whatever else is in scope.
attribute [local instance (high)] instPowNat

namespace Standing

/-- The standings that can be read: their credits are finite, and none of their instants lies before the
epoch. -/
structure Storable (s : Standing) : Prop where
  credits : s.credits.isFinite = true
  lastUpdate : 0 ≤ s.lastUpdate.nanos
  created : 0 ≤ s.created.nanos

/-- What a standing becomes when it is written and read again: the credits of it are read again, and the
instants are kept. -/
def retold (s : Standing) : Standing := { s with credits := s.credits.reread }

@[simp]
theorem lastUpdate_retold (s : Standing) : s.retold.lastUpdate = s.lastUpdate := rfl

@[simp]
theorem created_retold (s : Standing) : s.retold.created = s.created := rfl

variable {s : Standing}

theorem Storable.retold (storable : s.Storable) : s.retold.Storable where
  credits := Binary64.isFinite_reread storable.credits
  lastUpdate := storable.lastUpdate
  created := storable.created

/-- The three members of a standing are read into an empty draft. -/
theorem fills_members (finite : s.credits.isFinite = true) {updated created : String}
    (writtenUpdated : s.lastUpdate.encode? = some updated) (writtenCreated : s.created.encode? = some created) :
    form.Fills [("credits", s.credits.text.toList), ("last_update", updated.toList),
      ("created", created.toList)] ⟨none, none, none⟩
      ⟨some s.credits.reread, some s.lastUpdate, some s.created⟩ := by
  have last : form.Fills [("created", created.toList)]
      ⟨some s.credits.reread, some s.lastUpdate, none⟩
      ⟨some s.credits.reread, some s.lastUpdate, some s.created⟩ := by
    refine .cons (isPlain_of_all (by decide)) (by simp [form]) (by simp [form]) (fun rest _ => ?_) (.nil _)
    simp [form, Instant.reader_encode writtenCreated, Bind.bind, Except.bind, pure, Except.pure]
  have later : form.Fills [("last_update", updated.toList), ("created", created.toList)]
      ⟨some s.credits.reread, none, none⟩
      ⟨some s.credits.reread, some s.lastUpdate, some s.created⟩ := by
    refine .cons (isPlain_of_all (by decide)) (by simp [form]) (by simp [form]) (fun rest _ => ?_) last
    simp [form, Instant.reader_encode writtenUpdated, Bind.bind, Except.bind, pure, Except.pure]
  refine .cons (isPlain_of_all (by decide)) (by simp [form]) (by simp [form]) (fun rest ends => ?_) later
  simp [form, double_text finite ends.endsNumeral, Bind.bind, Except.bind, pure, Except.pure]

/-- A standing as it is written. -/
theorem encode_eq {updated created : String} (writtenUpdated : s.lastUpdate.encode? = some updated)
    (writtenCreated : s.created.encode? = some created) :
    ∃ text, s.encode = .ok text ∧ text.toList = objectChars [("credits", (encodeCredits s.credits).toList),
      ("last_update", updated.toList), ("created", created.toList)] := by
  refine ⟨_, by rw [encode, writtenUpdated, writtenCreated], ?_⟩
  simp [objectChars, memberChars, restChars]

/-- A storable standing has a text, which is read as the standing retold. -/
theorem exists_encode (storable : s.Storable) :
    ∃ text, s.encode = .ok text ∧ decode text = .ok s.retold := by
  obtain ⟨updated, writtenUpdated, -⟩ := Instant.encode?_eq storable.lastUpdate
  obtain ⟨created, writtenCreated, -⟩ := Instant.encode?_eq storable.created
  obtain ⟨text, written, chars⟩ := encode_eq writtenUpdated writtenCreated
  have read : form.record (text.toList ++ []) = .ok (s.retold, []) := by
    rw [chars, encodeCredits, if_pos storable.credits]
    exact Form.record_objectChars (fills_members storable.credits writtenUpdated writtenCreated) rfl
  rw [List.append_nil] at read
  exact ⟨text, written, whole_eq_ok read⟩

/-- What has been read of a standing is finite, and none of its instants lies before the epoch. -/
structure Draft.Sound (draft : Draft) : Prop where
  credits : ∀ x ∈ draft.credits, x.isFinite = true
  lastUpdate : ∀ t ∈ draft.lastUpdate, 0 ≤ t.nanos
  created : ∀ t ∈ draft.created, 0 ≤ t.nanos

/-- A member that is read keeps a draft sound. -/
theorem Draft.Sound.member {draft next : Draft} {name : String} {chars rest : List Char} (sound : draft.Sound)
    (read : form.member name draft chars = .ok (next, rest)) : next.Sound := by
  simp only [form] at read
  split at read
  · obtain ⟨⟨x, behind⟩, number, read⟩ := bind_eq_ok read
    cases read
    exact { sound with credits := fun y mem => Option.some.inj mem ▸ isFinite_of_double number }
  · split at read
    · obtain ⟨⟨t, behind⟩, instant, read⟩ := bind_eq_ok read
      cases read
      exact { sound with lastUpdate := fun u mem => Option.some.inj mem ▸ Instant.le_of_reader instant }
    · obtain ⟨⟨t, behind⟩, instant, read⟩ := bind_eq_ok read
      cases read
      exact { sound with created := fun u mem => Option.some.inj mem ▸ Instant.le_of_reader instant }

/-- Every standing that is read is storable. -/
theorem storable_of_decode {text : String} (read : decode text = .ok s) : s.Storable := by
  obtain ⟨rest, record⟩ := exists_of_whole read
  have blank : form.blank.Sound := ⟨by simp [form], by simp [form], by simp [form]⟩
  obtain ⟨draft, sound, made⟩ :=
    Form.exists_draft_of_record blank (fun _ _ _ _ _ _ sound => sound.member) record
  obtain ⟨credits, lastUpdate, created⟩ := draft
  obtain ⟨finite, later, first⟩ := sound
  simp only [form] at made
  split at made
  case h_4 =>
    cases made
    exact ⟨finite _ rfl, later _ rfl, first _ rfl⟩
  all_goals cases made

end Standing

end Admission
