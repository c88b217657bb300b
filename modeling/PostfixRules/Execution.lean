import PostfixRules.Condition
import PostfixRules.Record

/-!
# Running a tree

Running a tree decides it and reports how: the comparisons that hold, from left to right, and on
request a line for every node after the lines of its children. A node is named by the steps from
the root to it.
-/

namespace PostfixRules

/-- What running a tree found out. -/
structure Findings where
  matched : Bool
  /-- The comparisons that hold, from left to right. -/
  conditions : List String
  /-- A line for every node in postorder, or nothing if no trace was asked for. -/
  trace : List String
  deriving DecidableEq, Repr

namespace Findings

/-- How the trace names a verdict. -/
def verdictText (matched : Bool) : String :=
  if matched then "MATCHED" else "NOT_MATCHED"

/-- How a truth value is written. -/
def boolText (value : Bool) : String :=
  if value then "true" else "false"

/-- How a comparison is shown: field, operator and value. -/
def conditionText (operator : ComparisonOperator) (field : String) (value : Literal) : String :=
  field ++ " " ++ operator.symbol ++ " " ++ value.text

/-- The trace line of a comparison. -/
def comparisonLine (path : String) (operator : ComparisonOperator) (field : String)
    (value : Literal) (matched : Bool) : String :=
  path ++ ": " ++ conditionText operator field value ++ " => " ++ verdictText matched

/-- The trace line of a logical node. -/
def logicalLine (path : String) (operator : LogicalOperator) (left right matched : Bool) :
    String :=
  path ++ ": " ++ operator.word ++ " (" ++ boolText left ++ ", " ++ boolText right ++ ") => " ++
    verdictText matched

/-- What a decided comparison contributes. -/
def ofComparison (traced : Bool) (path : String) (operator : ComparisonOperator) (field : String)
    (value : Literal) (matched : Bool) : Findings where
  matched := matched
  conditions := if matched then [conditionText operator field value] else []
  trace := if traced then [comparisonLine path operator field value matched] else []

/-- What a logical node makes of its two sides. -/
def join (traced : Bool) (path : String) (operator : LogicalOperator) (left right : Findings) :
    Findings :=
  let matched := operator.apply left.matched right.matched
  { matched := matched
    conditions := left.conditions ++ right.conditions
    trace := left.trace ++ right.trace ++
      if traced then [logicalLine path operator left.matched right.matched matched] else [] }

end Findings

/-- Run a tree that stands at a path of a larger tree, at the level where the path ends. -/
def runAt (record : Record) (traced : Bool) (path : String) (level : Nat) :
    Expr → Except RuleError Findings
  | .comparison operator field value =>
    if maxDepth < level then .error (.invalidNode .tooDeepToDecide)
    else (Condition.verdict field (record.field? field) operator value).map
      (Findings.ofComparison traced path operator field value)
  | .logical operator left right =>
    if maxDepth < level then .error (.invalidNode .tooDeepToDecide)
    else match runAt record traced (path ++ ".left") (level + 1) left with
      | .error e => .error e
      | .ok l =>
        match runAt record traced (path ++ ".right") (level + 1) right with
        | .error e => .error e
        | .ok r => .ok (Findings.join traced path operator l r)

/-- The name of the root in paths. -/
def rootPath : String := "root"

/-- Run a tree on a record. -/
def execute (traced : Bool) (expr : Expr) (record : Record) : Except RuleError Findings :=
  runAt record traced rootPath 1 expr

end PostfixRules
