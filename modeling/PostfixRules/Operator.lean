/-!
# Operators

Five operators compare a field with a literal, two join trees. Each has exactly one spelling, the
same in rule text and in JSON, and case counts.
-/

namespace PostfixRules

/-- A comparison of a field with a literal. -/
inductive ComparisonOperator where
  | greater
  | less
  | equal
  | atLeast
  | atMost
  deriving DecidableEq, Repr

namespace ComparisonOperator

/-- The spelling of an operator. -/
def symbol : ComparisonOperator → String
  | .greater => ">"
  | .less => "<"
  | .equal => "="
  | .atLeast => ">="
  | .atMost => "<="

/-- The operator with a spelling. -/
def ofSymbol? (text : String) : Option ComparisonOperator :=
  if text = ">" then some .greater
  else if text = "<" then some .less
  else if text = "=" then some .equal
  else if text = ">=" then some .atLeast
  else if text = "<=" then some .atMost
  else none

/-- Whether the operator needs an order of its two sides; only equality does not. -/
def isOrdering : ComparisonOperator → Bool
  | .equal => false
  | .greater | .less | .atLeast | .atMost => true

/-- Whether the operator holds of two sides in this order. -/
def holds : ComparisonOperator → Ordering → Bool
  | .greater, order => order == .gt
  | .less, order => order == .lt
  | .equal, order => order == .eq
  | .atLeast, order => order != .lt
  | .atMost, order => order != .gt

end ComparisonOperator

/-- A way to join two trees. -/
inductive LogicalOperator where
  | and
  | or
  deriving DecidableEq, Repr

namespace LogicalOperator

/-- The spelling of an operator. -/
def word : LogicalOperator → String
  | .and => "AND"
  | .or => "OR"

/-- The operator with a spelling. -/
def ofWord? (text : String) : Option LogicalOperator :=
  if text = "AND" then some .and else if text = "OR" then some .or else none

/-- The verdict on two sides that have both been decided. -/
def apply : LogicalOperator → Bool → Bool → Bool
  | .and, left, right => left && right
  | .or, left, right => left || right

end LogicalOperator

end PostfixRules
