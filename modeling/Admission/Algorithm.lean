import Admission.Text.Blank

/-!
# Algorithm names

The two admission algorithms and the names by which a configuration picks them: the two words in any
ASCII letter case, joined by an underscore, a hyphen or nothing, with blanks around them.

## Main definitions

* `Algorithm`: the token bucket and the leaky bucket.
* `Algorithm.name`: the canonical name.
* `Algorithm.parse`: reading a name; the error carries the text as it was given.
-/

namespace Admission

/-- How requests are admitted. -/
inductive Algorithm
  | tokenBucket
  | leakyBucket
  deriving DecidableEq, Repr

namespace Algorithm

/-- The canonical name. -/
def name : Algorithm → String
  | .tokenBucket => "token_bucket"
  | .leakyBucket => "leaky_bucket"

/-- A text that names no algorithm. -/
structure UnknownName where
  given : String
  deriving DecidableEq, Repr

/-- What the caller is told. -/
def UnknownName.message (e : UnknownName) : String :=
  "unknown algorithm `" ++ e.given ++ "` (expected `token_bucket` or `leaky_bucket`)"

/-- A character in the form in which names are compared: ASCII letters in lower case, hyphens as
underscores. -/
def fold (c : Char) : Char := if c = '-' then '_' else c.toLower

/-- The algorithm of a folded and trimmed name. -/
def ofFolded? (folded : List Char) : Option Algorithm :=
  if folded = "token_bucket".toList ∨ folded = "tokenbucket".toList then some .tokenBucket
  else if folded = "leaky_bucket".toList ∨ folded = "leakybucket".toList then some .leakyBucket
  else none

/-- Reads an algorithm's name. -/
def parse (text : String) : Except UnknownName Algorithm :=
  match ofFolded? ((Text.trimBlank text.toList).map fold) with
  | some algorithm => .ok algorithm
  | none => .error { given := text }

end Algorithm

end Admission
