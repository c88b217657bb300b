import PostfixRules.Number.Style

/-!
# Literals

A literal is a number, a text or a truth value. A word of rule text denotes the narrowest kind it
can: a finite number if it reads as one, a truth value if it is `true` or `false`, and otherwise
itself as a text.
-/

namespace PostfixRules

/-- What a field is compared with. Numbers built directly, not read from a word, may also be
infinite or not-a-number; such a literal never takes part in a comparison. -/
inductive Literal where
  | number (value : Double)
  | string (text : String)
  | boolean (value : Bool)
  deriving DecidableEq, Repr

namespace Literal

/-- The literal that a word denotes. -/
def resolve (word : String) : Literal :=
  match (Double.read? word.toList).bind Double.finite? with
  | some x => .number (.finite x)
  | none =>
    if word = "true" then .boolean true
    else if word = "false" then .boolean false
    else .string word

/-- The name of the kind of a literal. -/
def kindName : Literal → String
  | .number _ => "number"
  | .string _ => "string"
  | .boolean _ => "boolean"

/-- The text of a literal, as rule text has it. -/
def text : Literal → String
  | .number x => x.plainText
  | .string s => s
  | .boolean b => if b then "true" else "false"

/-- Whether the literal is a text. -/
def isString : Literal → Bool
  | .string _ => true
  | _ => false

end Literal

end PostfixRules
