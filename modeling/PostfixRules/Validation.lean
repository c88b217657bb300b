import PostfixRules.Error

/-!
# Checking trees

A tree that was not built from rule text may be too deep, have a comparison without a field, or
compare with a number that is not finite. The first such node from the left, a node before its
children, is reported with the steps that lead to it.
-/

namespace PostfixRules

/-- Check a tree that stands at a path of a larger tree, at the level where the path ends. -/
def validateAt (path : String) (level : Nat) : Expr → Except RuleError Unit
  | .comparison _ field value =>
    if maxDepth < level then .error (.invalidNode (.tooDeepAt path))
    else if field.isEmpty then .error (.invalidNode (.emptyFieldAt path))
    else match value with
      | .number x => if x.isFinite then .ok () else .error (.invalidNode (.notFiniteAt path x))
      | _ => .ok ()
  | .logical _ left right =>
    if maxDepth < level then .error (.invalidNode (.tooDeepAt path))
    else match validateAt (path ++ ".left") (level + 1) left with
      | .error e => .error e
      | .ok () => validateAt (path ++ ".right") (level + 1) right

/-- Check a whole tree, whose root is called `path`. -/
def validate (expr : Expr) (path : String) : Except RuleError Unit :=
  validateAt path 1 expr

end PostfixRules
