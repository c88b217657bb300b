import PostfixRules.Proofs.Execution

/-!
# The comparisons of a tree

The leaves of a tree from left to right determine what a run reports as conditions: the texts of the
comparisons that hold. Neither the joints of the tree nor the place where it stands in a larger tree
has a part in that.
-/

namespace PostfixRules

/-- A leaf of a tree. -/
structure Comparison where
  operator : ComparisonOperator
  field : String
  value : Literal
  deriving DecidableEq, Repr

namespace Comparison

/-- The verdict on one comparison. -/
def verdict (record : Record) (comparison : Comparison) : Except RuleError Bool :=
  Condition.verdict comparison.field (record.field? comparison.field) comparison.operator
    comparison.value

/-- Whether the comparison is decided and holds. -/
def holds (record : Record) (comparison : Comparison) : Bool :=
  match comparison.verdict record with
  | .ok matched => matched
  | .error _ => false

/-- The comparison as runs report it. -/
def text (comparison : Comparison) : String :=
  Findings.conditionText comparison.operator comparison.field comparison.value

theorem holds_of_verdict {record : Record} {comparison : Comparison} {matched : Bool}
    (h : comparison.verdict record = .ok matched) : comparison.holds record = matched := by
  rw [holds, h]

end Comparison

namespace Expr

/-- The comparisons of a tree from left to right, with repetitions. -/
def comparisons : Expr → List Comparison
  | .comparison operator field value => [⟨operator, field, value⟩]
  | .logical _ left right => left.comparisons ++ right.comparisons

/-- The texts of the comparisons of a tree that hold. -/
def conditions (record : Record) (expr : Expr) : List String :=
  (expr.comparisons.filter (Comparison.holds record)).map Comparison.text

theorem conditions_logical (record : Record) (operator : LogicalOperator) (left right : Expr) :
    (logical operator left right).conditions record =
      left.conditions record ++ right.conditions record := by
  simp only [conditions, comparisons, List.filter_append, List.map_append]

end Expr

/-- A run that succeeds reports the comparisons that hold, whatever is traced and wherever the tree
stands. -/
theorem conditions_of_runAt {record : Record} {traced : Bool} {path : String} {level : Nat}
    {expr : Expr} {findings : Findings} (h : runAt record traced path level expr = .ok findings) :
    findings.conditions = expr.conditions record := by
  induction expr generalizing path level findings with
  | comparison operator field value =>
    rw [runAt] at h
    split_ifs at h with hlevel
    obtain ⟨matched, hverdict, rfl⟩ := Outcome.map_eq_ok_iff.mp h
    have hholds : Comparison.holds record ⟨operator, field, value⟩ = matched :=
      Comparison.holds_of_verdict hverdict
    simp only [Expr.conditions, Expr.comparisons, List.filter_cons, hholds, List.filter_nil]
    cases matched <;> rfl
  | logical operator left right ihl ihr =>
    rw [runAt_logical] at h
    split_ifs at h with hlevel
    obtain ⟨l, hl, h⟩ := Outcome.bind_eq_ok_iff.mp h
    obtain ⟨r, hr, rfl⟩ := Outcome.map_eq_ok_iff.mp h
    rw [Expr.conditions_logical, ← ihl hl, ← ihr hr]
    rfl

/-- A run of a whole tree that succeeds reports the comparisons that hold. -/
theorem Expr.conditions_of_run {traced : Bool} {expr : Expr} {record : Record}
    {execution : Execution} (h : expr.run traced record = .ok execution) :
    execution.findings.conditions = expr.conditions record := by
  obtain ⟨findings, hexecute, rfl⟩ := Outcome.map_eq_ok_iff.mp h
  exact conditions_of_runAt hexecute

end PostfixRules
