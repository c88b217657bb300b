import PostfixRules.Error

/-!
# Deciding one comparison

Equality is strict: values of different kinds are never equal, and nothing is converted. The other
operators need two numbers, or two texts, which are ordered by their bytes. Whole numbers are
compared exactly with literals that are whole; every other pair of numbers is compared as doubles.
-/

namespace PostfixRules

/-- The order of a number of a record and the number of a literal. Literals of magnitude `2 ^ 127`
or more are compared as doubles even when they are whole. -/
def Json.Number.order? (actual : Json.Number) (expected : Double) : Option Ordering :=
  match actual, expected with
  | .whole n, .finite x =>
    if x.isWhole && decide (x.units < 2 ^ (127 : Nat) * unitsPerOne) then
      some (compare n.value x.whole)
    else actual.toDouble.order? expected
  | _, _ => actual.toDouble.order? expected

namespace Condition

/-- A comparison needs a field and a literal that may take part in comparisons. -/
def check (field : String) (expected : Literal) : Except RuleError Unit :=
  if field.isEmpty then .error (.invalidNode .emptyField)
  else match expected with
    | .number x => if x.isFinite then .ok () else .error (.invalidNode (.notFinite field x))
    | _ => .ok ()

/-- Strict equality of a value and a literal. -/
def equals (actual : Json) (expected : Literal) : Bool :=
  match actual, expected with
  | .number n, .number m => n.order? m == some .eq
  | .string s, .string t => s == t
  | .bool b, .boolean c => b == c
  | _, _ => false

/-- The order of a value and a literal, if they have one. -/
def order? (actual : Json) (expected : Literal) : Option Ordering :=
  match actual, expected with
  | .number n, .number m => n.order? m
  | .string s, .string t => some (Text.byteOrder s t)
  | _, _ => none

/-- What a literal can be ordered with. -/
def orderedKinds : Literal → String
  | .boolean _ => "number or string"
  | literal => literal.kindName

/-- Decide a comparison, given the value of its field if the record has one. -/
def verdict (field : String) (actual : Option Json) (operator : ComparisonOperator)
    (expected : Literal) : Except RuleError Bool :=
  match check field expected with
  | .error e => .error e
  | .ok () =>
    match actual with
    | none => .error (.missingField field)
    | some actual =>
      if operator.isOrdering then
        match order? actual expected with
        | some order => .ok (operator.holds order)
        | none =>
          .error (.typeMismatch operator.symbol field (orderedKinds expected) actual.kindName)
      else .ok (equals actual expected)

end Condition

end PostfixRules
