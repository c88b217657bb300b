import PostfixRules.Error
import PostfixRules.Text.Blank

/-!
# Words of rule text

Rule text is a row of words between blanks. Words are numbered from one.
-/

namespace PostfixRules

/-- A word of rule text with its place in the row of words. -/
structure Token where
  text : String
  /-- Counted from one. -/
  position : Nat
  deriving DecidableEq, Repr

/-- Number words, beginning with a position. -/
def Token.number (position : Nat) (words : List String) : List Token :=
  (words.zipIdx position).map fun (word, position) => ⟨word, position⟩

/-- The words of rule text; there must be at least one. -/
def tokenize (text : String) : Except RuleError (List Token) :=
  let tokens := Token.number 1 (Text.words text)
  if tokens.isEmpty then .error .emptyInput else .ok tokens

end PostfixRules
