import Admission.Codec.Quota
import Admission.Proofs.Codec.Time

/-!
# Quotas in JSON

Whatever form a text has, the quota that is read from it is made of the members that are read, and only
after they have passed the checks of `Quota.make`. What the checks refuse is refused with their own words.

## Main definitions

* `Quota.members`: the members of a quota, as they are written.

## Main results

* `Quota.decode_encode_self`: every quota is read as it was written.
* `Quota.decode_eq_ok_iff`: a text is read as a quota if and only if its members are the members of the quota.
* `Quota.decode_of_make_eq_error`: members that no quota has are refused as `Quota.make` refuses them.
* `Quota.decode_checks`: all three together.
-/

namespace Admission.Quota

open Json

-- Powers of natural numbers are the core library's, whatever else is in scope.
attribute [local instance (high)] instPowNat

/-- The members of a quota as they are written. -/
def members (q : Quota) : Members where
  limit := q.limit.toNat
  interval := q.interval
  burst := q.burst.toNat

variable {q : Quota} {text : String} {read : Members} {s rest : List Char}

/-! ### The checks -/

/-- The numbers of a quota make this quota. -/
theorem make_members (q : Quota) :
    make (.ofNat q.members.limit) q.members.interval (.ofNat q.members.burst) = .ok q := by
  simp [members, make, q.limit_ne_zero, q.interval_ne_zero]

/-- Members of 64 bits make a quota only if they are its members. -/
theorem members_of_make (limit : read.limit < 2 ^ (64 : ℕ)) (burst : read.burst < 2 ^ (64 : ℕ))
    (made : make (.ofNat read.limit) read.interval (.ofNat read.burst) = .ok q) : read = q.members := by
  rw [make] at made
  split at made
  · cases made
  · split at made
    · cases made
    · cases made
      simp [members, UInt64.toNat_ofNat_of_lt' limit, UInt64.toNat_ofNat_of_lt' burst]

/-! ### The members -/

/-- The numbers that have been read of a quota have 64 bits. -/
structure Draft.Fits (draft : Draft) : Prop where
  limit : ∀ n ∈ draft.limit, n < 2 ^ (64 : ℕ)
  burst : ∀ n ∈ draft.burst, n < 2 ^ (64 : ℕ)

theorem Draft.Fits.member {draft next : Draft} {name : String} (fits : draft.Fits)
    (read : form.member name draft s = .ok (next, rest)) : next.Fits := by
  simp only [form] at read
  split at read
  · obtain ⟨⟨n, behind⟩, number, read⟩ := bind_eq_ok read
    cases read
    exact { fits with limit := fun m mem => Option.some.inj mem ▸ lt_of_count number }
  · split at read
    · obtain ⟨⟨d, behind⟩, -, read⟩ := bind_eq_ok read
      cases read
      exact ⟨fits.limit, fits.burst⟩
    · obtain ⟨⟨n, behind⟩, number, read⟩ := bind_eq_ok read
      cases read
      exact { fits with burst := fun m mem => Option.some.inj mem ▸ lt_of_count number }

/-- The numbers of a quota have 64 bits, in whatever form it is read. -/
theorem lt_of_record (record : form.record s = .ok (read, rest)) :
    read.limit < 2 ^ (64 : ℕ) ∧ read.burst < 2 ^ (64 : ℕ) := by
  have blank : form.blank.Fits := ⟨by simp [form], by simp [form]⟩
  obtain ⟨draft, fits, made⟩ :=
    Form.exists_draft_of_record blank (fun _ _ _ _ _ _ fits => fits.member) record
  obtain ⟨limit, interval, burst⟩ := draft
  simp only [form] at made
  split at made
  case h_3 =>
    cases made
    refine ⟨fits.limit _ rfl, ?_⟩
    cases burst with
    | none => exact Nat.two_pow_pos 64
    | some n => exact fits.burst n rfl
  all_goals cases made

/-- The members of a quota are read as they were written. -/
theorem record_encode (q : Quota) (rest : List Char) :
    form.record (q.encode.toList ++ rest) = .ok (q.members, rest) := by
  have chars : q.encode.toList = objectChars [("limit", Nat.toDigits 10 q.limit.toNat),
      ("interval", q.interval.encode.toList), ("burst", Nat.toDigits 10 q.burst.toNat)] := by
    simp [encode, objectChars, memberChars, restChars]
  -- The form fills up from the last member on, each read behind those that come before it.
  have last : form.Fills [("burst", Nat.toDigits 10 q.burst.toNat)]
      ⟨some q.limit.toNat, some q.interval, none⟩
      ⟨some q.limit.toNat, some q.interval, some q.burst.toNat⟩ := by
    refine .cons (isPlain_of_all (by decide)) (by simp [form]) (by simp [form]) (fun rest ends => ?_) (.nil _)
    simp [form, count_toDigits q.burst.toNat_lt q.burst.toNat_lt ends.endsNumeral, Bind.bind, Except.bind,
      pure, Except.pure]
  have later : form.Fills [("interval", q.interval.encode.toList), ("burst", Nat.toDigits 10 q.burst.toNat)]
      ⟨some q.limit.toNat, none, none⟩
      ⟨some q.limit.toNat, some q.interval, some q.burst.toNat⟩ := by
    refine .cons (isPlain_of_all (by decide)) (by simp [form]) (by simp [form]) (fun rest _ => ?_) last
    simp [form, Duration.record_encode, Bind.bind, Except.bind, pure, Except.pure]
  have fills : form.Fills [("limit", Nat.toDigits 10 q.limit.toNat),
      ("interval", q.interval.encode.toList), ("burst", Nat.toDigits 10 q.burst.toNat)] form.blank
      ⟨some q.limit.toNat, some q.interval, some q.burst.toNat⟩ := by
    refine .cons (isPlain_of_all (by decide)) (by simp [form]) (by simp [form]) (fun rest ends => ?_) later
    simp [form, count_toDigits q.limit.toNat_lt q.limit.toNat_lt ends.endsNumeral, Bind.bind, Except.bind,
      pure, Except.pure]
  rw [chars]
  exact Form.record_objectChars fills rfl

/-! ### Whole texts -/

/-- What comes of a text whose members have been read is what comes of making a quota of them. -/
theorem decode_eq_of_record (record : form.record text.toList = .ok (read, rest)) :
    decode text =
      match make (.ofNat read.limit) read.interval (.ofNat read.burst) with
      | .ok q => if skipBlanks rest = [] then .ok q else .error .malformed
      | .error e => .error (.mismatch (.quotaRefused e)) := by
  rw [decode, whole, reader, record]
  simp only [Bind.bind, Except.bind]
  cases make (.ofNat read.limit) read.interval (.ofNat read.burst) with
  | error e => rfl
  | ok q =>
    dsimp only
    split
    case h_1 ended => rw [if_pos ended]
    case h_2 more => rw [if_neg more]

/-- A text is read as a quota if and only if the members that it names are those of the quota. -/
theorem decode_eq_ok_iff : decode text = .ok q ↔
    ∃ rest, form.record text.toList = .ok (q.members, rest) ∧ skipBlanks rest = [] := by
  constructor
  · intro decoded
    obtain ⟨behind, first⟩ := exists_of_whole decoded
    obtain ⟨⟨read, rest⟩, record, -⟩ := bind_eq_ok first
    rw [decode_eq_of_record record] at decoded
    split at decoded
    case h_1 made =>
      split at decoded
      case isTrue ended =>
        cases decoded
        obtain ⟨limit, burst⟩ := lt_of_record record
        exact ⟨rest, members_of_make limit burst made ▸ record, ended⟩
      case isFalse => cases decoded
    case h_2 => cases decoded
  · rintro ⟨rest, record, ended⟩
    rw [decode_eq_of_record record, make_members]
    exact if_pos ended

/-- Every quota is read as it was written. -/
theorem decode_encode_self (q : Quota) : decode q.encode = .ok q := by
  have record := record_encode q []
  rw [List.append_nil] at record
  exact decode_eq_ok_iff.2 ⟨[], record, rfl⟩

/-- Members that no quota has are refused as they are where a quota is made, whatever stands behind them. -/
theorem decode_of_make_eq_error {e : QuotaError} (record : form.record text.toList = .ok (read, rest))
    (refused : make (.ofNat read.limit) read.interval (.ofNat read.burst) = .error e) :
    decode text = .error (.mismatch (.quotaRefused e)) := by
  rw [decode_eq_of_record record, refused]

/-- No quota is read past the checks. Every quota is read as it was written. A text is read as a quota if and
only if the members that stand in it, in whatever form, are those of the quota, with nothing but blanks
behind them; they have then passed the checks, and the quota is written and read again unchanged. Members
without a limit, or else without an interval, are refused in the words in which `make` refuses them. -/
theorem decode_checks :
    (∀ q : Quota, decode q.encode = .ok q) ∧
    (∀ (text : String) (q : Quota), decode text = .ok q ↔
      ∃ rest, form.record text.toList = .ok (q.members, rest) ∧ skipBlanks rest = []) ∧
    (∀ (text : String) (q : Quota), decode text = .ok q →
      1 ≤ q.limit.toNat ∧ q.interval ≠ .zero ∧ decode q.encode = .ok q) ∧
    ∀ (text : String) (read : Members) (rest : List Char), form.record text.toList = .ok (read, rest) →
      read.limit = 0 ∨ read.interval = .zero →
      ∃ (e : QuotaError) (reason : Mismatch),
        make (.ofNat read.limit) read.interval (.ofNat read.burst) = .error e ∧
        decode text = .error (.mismatch reason) ∧ reason.message = e.message ∧
        e.message = if read.limit = 0 then "limit must be > 0 (got 0)" else "interval must be > 0 (got 0ns)" := by
  refine ⟨decode_encode_self, fun text q => decode_eq_ok_iff, fun text q _ => ?_, ?_⟩
  · have positive : q.limit.toNat ≠ 0 := fun zero => q.limit_ne_zero (UInt64.toNat.inj zero)
    exact ⟨Nat.one_le_iff_ne_zero.2 positive, q.interval_ne_zero, decode_encode_self q⟩
  · intro text read rest record missing
    by_cases limit : read.limit = 0
    · have refused : make (.ofNat read.limit) read.interval (.ofNat read.burst) = .error .zeroLimit := by
        have none : UInt64.ofNat read.limit = 0 := congrArg UInt64.ofNat limit
        rw [make, dif_pos none]
      exact ⟨_, _, refused, decode_of_make_eq_error record refused, rfl, (if_pos limit).symm⟩
    · -- A limit of 64 bits does not become zero by being taken for one.
      have word : UInt64.ofNat read.limit ≠ 0 := fun zero =>
        limit ((UInt64.toNat_ofNat_of_lt' (lt_of_record record).1).symm.trans (congrArg UInt64.toNat zero))
      have refused : make (.ofNat read.limit) read.interval (.ofNat read.burst) = .error .zeroInterval := by
        rw [make, dif_neg word, dif_pos (missing.resolve_left limit)]
      refine ⟨_, _, refused, decode_of_make_eq_error record refused, rfl, ?_⟩
      rw [if_neg limit]
      decide +kernel

/-- A text with its members out of order, one member that no quota has, and nanoseconds that carry; and an
array without a burst whose interval is no time at all. -/
theorem decode_checks_carrying :
    ∃ q : Quota, decode "\x7b\"interval\":\x7b\"nanos\":2000000001,\"secs\":1\x7d,\"note\":[],\"limit\":3\x7d" = .ok q ∧
      (1 ≤ q.limit.toNat ∧ q.interval ≠ .zero ∧ decode q.encode = .ok q) ∧
      form.record "[7,[0,0]]".toList = .ok (⟨7, .zero, 0⟩, []) ∧
      ∃ (e : QuotaError) (reason : Mismatch), make 7 .zero 0 = .error e ∧
        decode "[7,[0,0]]" = .error (.mismatch reason) ∧ reason.message = e.message ∧
        e.message = "interval must be > 0 (got 0ns)" := by
  have carried : decode "\x7b\"interval\":\x7b\"nanos\":2000000001,\"secs\":1\x7d,\"note\":[],\"limit\":3\x7d" =
      .ok ⟨3, ⟨3000000001, by decide⟩, 0, by decide, by decide⟩ := eq_ok_of_toOption (by decide +kernel)
  have still : form.record "[7,[0,0]]".toList = .ok (⟨7, .zero, 0⟩, []) := by rfl
  exact ⟨_, carried, decode_checks.2.2.1 _ _ carried, still, decode_checks.2.2.2 _ _ _ still (.inr rfl)⟩

end Admission.Quota
