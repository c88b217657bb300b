import PostfixRules.Literal
import PostfixRules.Operator

/-!
# Rule trees

A rule is a binary tree: comparisons of a field with a literal, joined by `AND` and `OR`. The depth
of a tree counts its levels, so that a single comparison has depth one, and trees deeper than
`maxDepth` are neither built from text nor decided.
-/

namespace PostfixRules

/-- The greatest depth of a tree that is accepted. -/
def maxDepth : Nat := 100

/-- A rule tree. -/
inductive Expr where
  | comparison (operator : ComparisonOperator) (field : String) (value : Literal)
  | logical (operator : LogicalOperator) (left right : Expr)
  deriving DecidableEq, Repr

namespace Expr

/-- The number of levels of a tree. -/
def depth : Expr → Nat
  | .comparison _ _ _ => 1
  | .logical _ left right => 1 + max left.depth right.depth

/-- The number of comparisons in a tree. -/
def comparisonCount : Expr → Nat
  | .comparison _ _ _ => 1
  | .logical _ left right => left.comparisonCount + right.comparisonCount

/-- The fields of the comparisons from left to right, with repetitions. -/
def fields : Expr → List String
  | .comparison _ field _ => [field]
  | .logical _ left right => left.fields ++ right.fields

/-- The tree in postfix notation, with one space between words. -/
def text : Expr → String
  | .comparison operator field value => field ++ " " ++ value.text ++ " " ++ operator.symbol
  | .logical operator left right => left.text ++ " " ++ right.text ++ " " ++ operator.word

end Expr

end PostfixRules
