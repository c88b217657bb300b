import PostfixRules.Error

/-!
# Combining trees

Several trees are joined from left to right with one operator; a single tree stays as it is. The
result must not be deeper than is accepted.
-/

namespace PostfixRules

/-- Join further trees to one of known depth; `ordinal` is the place of the next tree in the whole
list, counted from one. -/
def combineOnto (operator : LogicalOperator) (combined : Expr) (depth ordinal : Nat) :
    List Expr → Except RuleError Expr
  | [] => .ok combined
  | next :: rest =>
    let depth := 1 + max depth next.depth
    if maxDepth < depth then .error (.invalidNode (.combinedTooDeep ordinal depth))
    else combineOnto operator (.logical operator combined next) depth (ordinal + 1) rest

/-- Join trees from left to right with an operator. A single tree is not measured. -/
def combine (operator : LogicalOperator) : List Expr → Except RuleError Expr
  | [] => .error .emptyRuleSet
  | first :: rest => combineOnto operator first first.depth 2 rest

end PostfixRules
