import Mathlib.Tactic.SplitIfs
import PostfixRules.Compiler
import PostfixRules.Evaluation
import PostfixRules.Proofs.Outcome

/-!
# Running a tree is deciding it

A tree is decided by one recursion and run by another, and each counts the levels on its own. They
agree on every tree, sound or not: a run succeeds exactly if there is a verdict, which it reports,
and otherwise both fail with the same error. Asking for a trace adds the trace and nothing else, and
a compiled rule runs as its tree does.
-/

namespace PostfixRules

/-- The findings of the same run, had no trace been asked for. -/
def Findings.withoutTrace (findings : Findings) : Findings :=
  { findings with trace := [] }

theorem Findings.withoutTrace_ofComparison (traced : Bool) (path path' : String)
    (operator : ComparisonOperator) (field : String) (value : Literal) (matched : Bool) :
    (ofComparison traced path operator field value matched).withoutTrace =
      ofComparison false path' operator field value matched := rfl

theorem Findings.withoutTrace_join (traced : Bool) (path path' : String)
    (operator : LogicalOperator) (left right : Findings) :
    (join traced path operator left right).withoutTrace =
      join false path' operator left.withoutTrace right.withoutTrace := rfl

/-- The outcome of the same run, had no trace been asked for. -/
def Execution.withoutTrace (execution : Execution) : Execution :=
  { execution with findings := execution.findings.withoutTrace }

/-! ## The two recursions -/

/-- Deciding a logical node is deciding its sides, one after the other. -/
theorem evaluateAt_logical (record : Record) (level : Nat) (operator : LogicalOperator)
    (left right : Expr) :
    evaluateAt record level (.logical operator left right) =
      if maxDepth < level then .error (.invalidNode .tooDeepToDecide)
      else (evaluateAt record (level + 1) left).bind fun l =>
        (evaluateAt record (level + 1) right).map (operator.apply l) := by
  rw [evaluateAt]
  cases evaluateAt record (level + 1) left with
  | error e => rfl
  | ok l => cases evaluateAt record (level + 1) right <;> rfl

/-- Running a logical node is running its sides, one after the other. -/
theorem runAt_logical (record : Record) (traced : Bool) (path : String) (level : Nat)
    (operator : LogicalOperator) (left right : Expr) :
    runAt record traced path level (.logical operator left right) =
      if maxDepth < level then .error (.invalidNode .tooDeepToDecide)
      else (runAt record traced (path ++ ".left") (level + 1) left).bind fun l =>
        (runAt record traced (path ++ ".right") (level + 1) right).map
          (Findings.join traced path operator l) := by
  rw [runAt]
  cases runAt record traced (path ++ ".left") (level + 1) left with
  | error e => rfl
  | ok l => cases runAt record traced (path ++ ".right") (level + 1) right <;> rfl

/-- The verdict of a tree is that of its run, at every level, from every path and with or without a
trace. -/
theorem evaluateAt_eq_map_runAt (record : Record) (traced : Bool) (path : String) (level : Nat)
    (expr : Expr) :
    evaluateAt record level expr = (runAt record traced path level expr).map Findings.matched := by
  induction expr generalizing path level with
  | comparison operator field value =>
    rw [evaluateAt, runAt]
    split_ifs with hlevel
    · rfl
    · cases Condition.verdict field (record.field? field) operator value <;> rfl
  | logical operator left right ihl ihr =>
    rw [evaluateAt_logical, runAt_logical]
    split_ifs with hlevel
    · rfl
    · rw [ihl (path ++ ".left"), ihr (path ++ ".right")]
      cases runAt record traced (path ++ ".left") (level + 1) left with
      | error e => rfl
      | ok l =>
        cases runAt record traced (path ++ ".right") (level + 1) right with
        | error e => rfl
        | ok r => rfl

/-- A run without a trace is any other run at the same level, less its trace. In particular the path
shows in the trace only. -/
theorem runAt_false_eq_map_runAt (record : Record) (traced : Bool) (path path' : String)
    (level : Nat) (expr : Expr) :
    runAt record false path' level expr =
      (runAt record traced path level expr).map Findings.withoutTrace := by
  induction expr generalizing path path' level with
  | comparison operator field value =>
    rw [runAt, runAt]
    split_ifs with hlevel
    · rfl
    · cases Condition.verdict field (record.field? field) operator value with
      | error e => rfl
      | ok matched =>
        exact congrArg Except.ok
          (Findings.withoutTrace_ofComparison traced path path' operator field value matched).symm
  | logical operator left right ihl ihr =>
    rw [runAt_logical, runAt_logical]
    split_ifs with hlevel
    · rfl
    · rw [ihl (path ++ ".left") (path' ++ ".left"), ihr (path ++ ".right") (path' ++ ".right")]
      cases runAt record traced (path ++ ".left") (level + 1) left with
      | error e => rfl
      | ok l =>
        cases runAt record traced (path ++ ".right") (level + 1) right with
        | error e => rfl
        | ok r =>
          exact congrArg Except.ok (Findings.withoutTrace_join traced path path' operator l r).symm

/-! ## Whole trees -/

theorem evaluate_eq_map_execute (traced : Bool) (expr : Expr) (record : Record) :
    evaluate expr record = (execute traced expr record).map Findings.matched :=
  evaluateAt_eq_map_runAt record traced rootPath 1 expr

/-- The verdict of a tree is what its run reports. -/
theorem evaluate_eq_map_run (traced : Bool) (expr : Expr) (record : Record) :
    evaluate expr record = (expr.run traced record).map fun x => x.findings.matched := by
  rw [evaluate_eq_map_execute traced, Expr.run]
  cases execute traced expr record <;> rfl

/-- Leaving out the trace leaves out nothing else. -/
theorem Expr.run_false_eq_map_run (traced : Bool) (expr : Expr) (record : Record) :
    expr.run false record = (expr.run traced record).map Execution.withoutTrace := by
  rw [Expr.run, Expr.run, execute, execute,
    runAt_false_eq_map_runAt record traced rootPath rootPath 1 expr]
  cases runAt record traced rootPath 1 expr <;> rfl

/-- The run of a compiled rule is that of its tree under the id of the rule. -/
theorem CompiledRule.run_eq_map_run (traced : Bool) (compiled : CompiledRule) (record : Record) :
    compiled.run traced record = (compiled.rule.expr.run traced record).map
      fun execution => { execution with ruleId := some compiled.rule.id } := by
  rw [CompiledRule.run, Expr.run]
  cases execute traced compiled.rule.expr record <;> rfl

/-- A tree runs exactly if it has a verdict, with that verdict and otherwise with the same error;
without a trace a run is the same run less its trace; and a compiled rule runs as its tree, under
its id. -/
theorem evaluate_iff_run (expr : Expr) (record : Record) :
    (∀ traced verdict, evaluate expr record = .ok verdict ↔
      ∃ execution, expr.run traced record = .ok execution ∧
        execution.findings.matched = verdict) ∧
    (∀ traced e, evaluate expr record = .error e ↔ expr.run traced record = .error e) ∧
    expr.run false record = (expr.run true record).map Execution.withoutTrace ∧
    ∀ traced (compiled : CompiledRule),
      compiled.run traced record = (compiled.rule.expr.run traced record).map
        fun execution => { execution with ruleId := some compiled.rule.id } := by
  refine ⟨?_, ?_, Expr.run_false_eq_map_run true expr record, ?_⟩
  · intro traced verdict
    rw [evaluate_eq_map_run traced]
    exact Outcome.map_eq_ok_iff
  · intro traced e
    rw [evaluate_eq_map_run traced]
    exact Outcome.map_eq_error_iff
  · intro traced compiled
    exact compiled.run_eq_map_run traced record

end PostfixRules
