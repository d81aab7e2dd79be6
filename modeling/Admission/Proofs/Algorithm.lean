import Mathlib
import Admission.Algorithm

/-!
# The grammar of algorithm names

What is read as the name of an algorithm: the word of the algorithm, at most one joiner and the word for a
bucket, with letters of either case in them and blanks around them. Nothing else is, neither with a second
joiner, nor with one in another place, nor with a blank inside.

## Main definitions

* `Text.Stripped`: what is left of a text without the blanks at its ends.
* `Text.InAnyCase`: a word of which some letters may be in upper case.
* `Algorithm.Spells`: the texts that spell an algorithm.
* `Algorithm.joinedBy`: the canonical name with another joiner in it.

## Main results

* `Text.trimBlank_eq_iff`: trimming a text leaves what is stripped of blanks.
* `Algorithm.ofFolded?_fold_iff`: folding tells the spellings of the algorithms from all other texts.
* `Algorithm.parse_follows_grammar`: the texts that are read, and what they are read as.
-/

namespace Admission

namespace Text

/-! ### Blanks around a text -/

/-- A text of blanks only. -/
def Blank (s : List Char) : Prop := ∀ c ∈ s, isBlank c = true

/-- A text is its core with blanks around it, and the core has no blank at its ends. -/
def Stripped (s core : List Char) : Prop :=
  ∃ lead trail, s = lead ++ core ++ trail ∧ Blank lead ∧ Blank trail ∧
    (∀ c ∈ core.head?, isBlank c = false) ∧ ∀ c ∈ core.getLast?, isBlank c = false

variable {s core lead trail word : List Char}

theorem Blank.reverse (blank : Blank s) : Blank s.reverse := fun c among => blank c (List.mem_reverse.1 among)

theorem Blank.dropWhile_eq_nil (blank : Blank s) : s.dropWhile isBlank = [] := by
  have dropped : (s ++ []).dropWhile isBlank = [] := List.dropWhile_append_of_pos blank
  rwa [List.append_nil] at dropped

theorem blank_takeWhile (s : List Char) : Blank (s.takeWhile isBlank) :=
  List.all_eq_true.1 List.all_takeWhile

theorem isBlank_head?_dropWhile (s : List Char) : ∀ c ∈ (s.dropWhile isBlank).head?, isBlank c = false := by
  intro c first
  have found := List.head?_dropWhile_not isBlank s
  rwa [Option.mem_def.1 first] at found

/-- Blanks are dropped up to the first other character. -/
theorem dropWhile_append_of_head? (blank : Blank lead) (stop : ∀ c ∈ s.head?, isBlank c = false) :
    (lead ++ s).dropWhile isBlank = s := by
  rw [List.dropWhile_append_of_pos blank]
  cases s with
  | nil => rfl
  | cons c s => exact List.dropWhile_cons_of_neg (Bool.eq_false_iff.1 (stop c rfl))

theorem stripped_trimBlank (s : List Char) : Stripped s (trimBlank s) := by
  have front := List.takeWhile_append_dropWhile (p := isBlank) (l := s)
  have back := congrArg List.reverse
    (List.takeWhile_append_dropWhile (p := isBlank) (l := (s.dropWhile isBlank).reverse))
  rw [List.reverse_append, List.reverse_reverse] at back
  refine ⟨_, _, ?_, blank_takeWhile s, (blank_takeWhile (s.dropWhile isBlank).reverse).reverse, ?_, ?_⟩
  · rw [List.append_assoc, trimBlank, back, front]
  · intro c first
    refine isBlank_head?_dropWhile s c ?_
    rw [← back, List.head?_append, ← trimBlank, Option.mem_def.1 first]
    rfl
  · intro c last
    rw [trimBlank, List.getLast?_reverse] at last
    exact isBlank_head?_dropWhile _ c last

theorem Stripped.trimBlank_eq (stripped : Stripped s core) : trimBlank s = core := by
  obtain ⟨lead, trail, rfl, before, after, first, last⟩ := stripped
  rw [trimBlank]
  cases core with
  | nil =>
    have blank : Blank (lead ++ [] ++ trail) := by
      rw [List.append_nil]
      exact List.forall_mem_append.2 ⟨before, after⟩
    rw [blank.dropWhile_eq_nil]
    rfl
  | cons c core =>
    have front : (lead ++ (c :: core ++ trail)).dropWhile isBlank = c :: core ++ trail :=
      dropWhile_append_of_head? before first
    have back : (trail.reverse ++ (c :: core).reverse).dropWhile isBlank = (c :: core).reverse :=
      dropWhile_append_of_head? after.reverse (by rwa [List.head?_reverse])
    rw [List.append_assoc, front, List.reverse_append, back, List.reverse_reverse]

/-- Trimming a text leaves what is stripped of the blanks at its ends. -/
theorem trimBlank_eq_iff : trimBlank s = core ↔ Stripped s core :=
  ⟨fun trimmed => trimmed ▸ stripped_trimBlank s, Stripped.trimBlank_eq⟩

/-! ### Letters of either case -/

/-- A text is a word, in lower case, of which some letters may have been put in upper case. -/
def InAnyCase (s word : List Char) : Prop :=
  List.Forall₂ (fun c letter => c = letter ∨ c = letter.toUpper) s word

/-- A text is a word in any case exactly if it is so before, at and after each letter of the word. -/
theorem inAnyCase_append_cons_iff {letter : Char} {rest : List Char} :
    InAnyCase s (word ++ letter :: rest) ↔
      ∃ first c last, s = first ++ c :: last ∧ InAnyCase first word ∧ (c = letter ∨ c = letter.toUpper) ∧
        InAnyCase last rest := by
  constructor
  · intro spelled
    have tail := List.forall₂_drop_append s word _ spelled
    obtain ⟨c, last, one, later, split⟩ := List.forall₂_cons_right_iff.1 tail
    refine ⟨s.take word.length, c, last, ?_, List.forall₂_take_append s word _ spelled, one, later⟩
    rw [← split, List.take_append_drop]
  · rintro ⟨first, c, last, rfl, earlier, one, later⟩
    exact List.rel_append earlier (.cons one later)

/-- Each character stands for a letter of the word. -/
theorem InAnyCase.exists_letter (spelled : InAnyCase s word) :
    ∀ c ∈ s, ∃ letter ∈ word, c = letter ∨ c = letter.toUpper := by
  induction spelled with
  | nil => exact fun c among => nomatch among
  | cons one _ ih =>
    intro c among
    cases among with
    | head => exact ⟨_, List.mem_cons_self, one⟩
    | tail _ among =>
      obtain ⟨letter, among, either⟩ := ih c among
      exact ⟨letter, List.mem_cons_of_mem _ among, either⟩

end Text

namespace Algorithm

open Text

/-! ### Folded letters -/

/-- Two characters have a letter in lower case: it, and its upper case. -/
theorem toLower_eq_iff {c letter : Char} (lower : letter.isLower = true) :
    c.toLower = letter ↔ c = letter ∨ c = letter.toUpper := by
  have kept : letter.toLower = letter := Char.toLower_eq_of_not_isUpper (Char.not_isUpper_of_isLower lower)
  constructor
  · rintro rfl
    by_cases upper : c.isUpper = true
    · right
      rw [Char.toUpper_toLower_eq_toUpper, Char.toUpper_eq_of_not_isLower (Char.not_isLower_of_isUpper upper)]
    · exact .inl (Char.toLower_eq_of_not_isUpper upper).symm
  · rintro (rfl | rfl)
    · exact kept
    · rw [Char.toLower_toUpper_eq_toLower, kept]

/-- What is folded to a letter in lower case. -/
theorem fold_eq_iff {c letter : Char} (lower : letter.isLower = true) :
    fold c = letter ↔ c = letter ∨ c = letter.toUpper := by
  rw [← toLower_eq_iff lower, fold]
  split
  · subst c
    have apart : ∀ mark : Char, mark.isLower = false → mark ≠ letter := by
      rintro mark no rfl
      exact Bool.false_ne_true (no.symm.trans lower)
    exact iff_of_false (apart '_' rfl) (apart '-' rfl)
  · rfl

/-- What is folded to an underscore. -/
theorem fold_eq_underscore_iff {c : Char} : fold c = '_' ↔ c = '-' ∨ c = '_' := by
  rw [fold]
  split
  case isTrue hyphen => exact iff_of_true rfl (.inl hyphen)
  case isFalse other =>
    rw [or_iff_right other]
    by_cases upper : c.isUpper = true
    · have letter : c.toLower.isLower = true := by simp [Char.isAlpha, upper]
      refine iff_of_false ?_ ?_
      · intro same
        rw [same] at letter
        cases letter
      · rintro rfl
        cases upper
    · rw [Char.toLower_eq_of_not_isUpper upper]

/-- What is folded to a word in lower case. -/
theorem map_fold_eq_iff {s word : List Char} (lower : ∀ letter ∈ word, letter.isLower = true) :
    s.map fold = word ↔ InAnyCase s word := by
  induction word generalizing s with
  | nil => rw [InAnyCase, List.map_eq_nil_iff, List.forall₂_nil_right_iff]
  | cons letter word ih =>
    obtain ⟨one, later⟩ := List.forall_mem_cons.1 lower
    cases s with
    | nil => exact iff_of_false (List.cons_ne_nil letter word).symm fun spelled => nomatch spelled
    | cons c s =>
      rw [InAnyCase, List.map_cons, List.cons_eq_cons, List.forall₂_cons, fold_eq_iff one, ih later]
      rfl

/-! ### Spellings -/

/-- The word that tells an algorithm from the other one. -/
def word : Algorithm → String
  | .tokenBucket => "token"
  | .leakyBucket => "leaky"

/-- What may stand between the two words of a name. -/
def joiners : List (List Char) := [[], ['-'], ['_']]

/-- A text spells an algorithm: it is the algorithm's word, a joiner and the word for a bucket, in any case. -/
def Spells (a : Algorithm) (s : List Char) : Prop :=
  ∃ joiner ∈ joiners, InAnyCase s (a.word.toList ++ joiner ++ "bucket".toList)

/-- The canonical name with another joiner in it. -/
def joinedBy (a : Algorithm) (joiner : List Char) : List Char :=
  a.name.toList.flatMap fun c => if c = '_' then joiner else [c]

variable {a : Algorithm} {s folded : List Char}

theorem joinedBy_eq (a : Algorithm) (joiner : List Char) :
    a.joinedBy joiner = a.word.toList ++ joiner ++ "bucket".toList := by
  cases a <;> simp [joinedBy, name, word]

theorem spells_iff : a.Spells s ↔
    InAnyCase s (a.word.toList ++ "bucket".toList) ∨ InAnyCase s (a.word.toList ++ '-' :: "bucket".toList) ∨
      InAnyCase s (a.word.toList ++ '_' :: "bucket".toList) := by
  simp only [Spells, joiners, List.mem_cons, List.not_mem_nil, or_false, exists_eq_or_imp, exists_eq_left,
    List.append_assoc, List.nil_append, List.cons_append]

/-- The folded names of an algorithm have an underscore between the words, or nothing. -/
theorem ofFolded?_eq_some_iff : ofFolded? folded = some a ↔
    folded = a.word.toList ++ '_' :: "bucket".toList ∨ folded = a.word.toList ++ "bucket".toList := by
  have apart : folded = "token_bucket".toList ∨ folded = "tokenbucket".toList →
      ¬ (folded = "leaky_bucket".toList ∨ folded = "leakybucket".toList) := by
    rintro (rfl | rfl) <;> decide
  rw [ofFolded?]
  split
  case isTrue token =>
    cases a with
    | tokenBucket => exact iff_of_true rfl token
    | leakyBucket => exact iff_of_false nofun (apart token)
  case isFalse other =>
    cases a with
    | tokenBucket => exact iff_of_false (by split <;> nofun) other
    | leakyBucket =>
      split
      case isTrue leaky => exact iff_of_true rfl leaky
      case isFalse neither => exact iff_of_false nofun neither

theorem isLower_word (a : Algorithm) : ∀ letter ∈ a.word.toList, letter.isLower = true := by
  have lower : a.word.toList.all Char.isLower = true := by cases a <;> decide
  exact List.all_eq_true.1 lower

/-- What is folded to two words and an underscore between them. -/
theorem map_fold_eq_append_underscore_iff {first last : List Char}
    (earlier : ∀ letter ∈ first, letter.isLower = true) (later : ∀ letter ∈ last, letter.isLower = true) :
    s.map fold = first ++ '_' :: last ↔
      InAnyCase s (first ++ '-' :: last) ∨ InAnyCase s (first ++ '_' :: last) := by
  have hyphen (c : Char) : c = '-' ∨ c = '-'.toUpper ↔ c = '-' := or_self_iff
  have underscore (c : Char) : c = '_' ∨ c = '_'.toUpper ↔ c = '_' := or_self_iff
  simp only [inAnyCase_append_cons_iff, hyphen, underscore]
  constructor
  · intro folded
    obtain ⟨front, rest, rfl, head, tail⟩ := List.map_eq_append_iff.1 folded
    obtain ⟨c, back, rfl, mark, rest⟩ := List.map_eq_cons_iff.1 tail
    have head := (map_fold_eq_iff earlier).1 head
    have rest := (map_fold_eq_iff later).1 rest
    rcases fold_eq_underscore_iff.1 mark with rfl | rfl
    · exact .inl ⟨front, _, back, rfl, head, rfl, rest⟩
    · exact .inr ⟨front, _, back, rfl, head, rfl, rest⟩
  · rintro (⟨front, c, back, rfl, head, rfl, tail⟩ | ⟨front, c, back, rfl, head, rfl, tail⟩) <;>
      rw [List.map_append, List.map_cons, (map_fold_eq_iff earlier).2 head, (map_fold_eq_iff later).2 tail] <;> rfl

/-- Folding tells the spellings of an algorithm from all other texts. -/
theorem ofFolded?_fold_iff : ofFolded? (s.map fold) = some a ↔ a.Spells s := by
  have bucket : ∀ letter ∈ "bucket".toList, letter.isLower = true := List.all_eq_true.1 (by decide)
  have both : ∀ letter ∈ a.word.toList ++ "bucket".toList, letter.isLower = true :=
    List.forall_mem_append.2 ⟨isLower_word a, bucket⟩
  rw [ofFolded?_eq_some_iff, map_fold_eq_append_underscore_iff (isLower_word a) bucket, map_fold_eq_iff both]
  rw [spells_iff, or_comm]

/-- A spelling has no blank in it. -/
theorem Spells.not_blank (spelled : a.Spells s) : ∀ c ∈ s, isBlank c = false := by
  have letters : (joiners.all fun joiner => (a.word.toList ++ joiner ++ "bucket".toList).all fun letter =>
      !isBlank letter && !isBlank letter.toUpper) = true := by cases a <;> decide
  simp only [List.all_eq_true, Bool.and_eq_true, Bool.not_eq_true'] at letters
  obtain ⟨joiner, among, spelled⟩ := spelled
  intro c found
  obtain ⟨letter, within, rfl | rfl⟩ := spelled.exists_letter c found
  · exact (letters joiner among c within).1
  · exact (letters joiner among letter within).2

theorem Spells.stripped {lead trail : List Char} (spelled : a.Spells s) (before : Blank lead)
    (after : Blank trail) : Stripped (lead ++ s ++ trail) s :=
  ⟨lead, trail, rfl, before, after, fun c first => spelled.not_blank c (List.mem_of_mem_head? first),
    fun c last => spelled.not_blank c (List.mem_of_getLast? last)⟩

/-! ### Reading a name -/

variable {text : String}

theorem parse_eq_ok_iff : parse text = .ok a ↔ ofFolded? ((trimBlank text.toList).map fold) = some a := by
  rw [parse]
  split <;> simp [*]

theorem parse_eq_error_iff {e : UnknownName} : parse text = .error e ↔
    (∀ a, ofFolded? ((trimBlank text.toList).map fold) ≠ some a) ∧ e.given = text := by
  obtain ⟨given⟩ := e
  rw [parse]
  split <;> simp [*, eq_comm]

/-- A text is read as an algorithm exactly if it spells that algorithm once the blanks at its ends are stripped,
and any other text is given back with the error. So the canonical name is read as its algorithm with any
joiner, in any case and with any blanks around it. -/
theorem parse_follows_grammar (text : String) :
    (∀ a, parse text = .ok a ↔ ∃ core, Stripped text.toList core ∧ a.Spells core) ∧
    (∀ e, parse text = .error e ↔
      (¬ ∃ a core, Stripped text.toList core ∧ Spells a core) ∧ e.given = text) ∧
    (∀ (a : Algorithm) (joiner spelling lead trail : List Char), joiner ∈ joiners →
      InAnyCase spelling (a.joinedBy joiner) → Blank lead → Blank trail →
      text.toList = lead ++ spelling ++ trail → parse text = .ok a) := by
  have reads (a : Algorithm) : parse text = .ok a ↔ ∃ core, Stripped text.toList core ∧ a.Spells core := by
    simp only [parse_eq_ok_iff, ofFolded?_fold_iff, ← trimBlank_eq_iff, exists_eq_left']
  refine ⟨reads, fun e => ?_, ?_⟩
  · rw [parse_eq_error_iff, not_exists]
    simp only [← reads, parse_eq_ok_iff, ne_eq]
  · intro a joiner spelling lead trail among spelled before after whole
    have spells : a.Spells spelling := ⟨joiner, among, joinedBy_eq a joiner ▸ spelled⟩
    exact (reads a).2 ⟨spelling, whole ▸ spells.stripped before after, spells⟩

/-- Blanks around the name, letters in upper case and a hyphen in it; but no blank may stand for the hyphen. -/
theorem parse_follows_grammar_shouted :
    ['-'] ∈ joiners ∧ InAnyCase "Leaky-BUCKET".toList (leakyBucket.joinedBy ['-']) ∧ Blank ['\t'] ∧
      Blank ['\u2003'] ∧ parse "\tLeaky-BUCKET\u2003" = .ok .leakyBucket ∧
      ¬ ∃ a core, Stripped "leaky bucket".toList core ∧ Spells a core := by
  have among : ['-'] ∈ joiners := by decide
  have spelled : InAnyCase "Leaky-BUCKET".toList (leakyBucket.joinedBy ['-']) := by
    simp [InAnyCase, joinedBy, name]
  have before : Blank ['\t'] := by simp [Blank]; decide
  have after : Blank ['\u2003'] := by simp [Blank]; decide
  exact ⟨among, spelled, before, after,
    (parse_follows_grammar "\tLeaky-BUCKET\u2003").2.2 .leakyBucket ['-'] _ _ _ among spelled before after rfl,
    (((parse_follows_grammar "leaky bucket").2.1 ⟨"leaky bucket"⟩).1 (by decide)).1⟩

end Algorithm

end Admission
