import PostfixRules.Condition
import PostfixRules.Record

/-!
# Deciding a tree

Both sides of a logical node are always decided, left before right, so that no error is masked. A
tree with a level below the greatest depth has no verdict.
-/

namespace PostfixRules

/-- Decide a tree that begins at a level of a larger tree. -/
def evaluateAt (record : Record) (level : Nat) : Expr → Except RuleError Bool
  | .comparison operator field value =>
    if maxDepth < level then .error (.invalidNode .tooDeepToDecide)
    else Condition.verdict field (record.field? field) operator value
  | .logical operator left right =>
    if maxDepth < level then .error (.invalidNode .tooDeepToDecide)
    else match evaluateAt record (level + 1) left with
      | .error e => .error e
      | .ok l =>
        match evaluateAt record (level + 1) right with
        | .error e => .error e
        | .ok r => .ok (operator.apply l r)

/-- The verdict of a tree on a record. -/
def evaluate (expr : Expr) (record : Record) : Except RuleError Bool :=
  evaluateAt record 1 expr

end PostfixRules
