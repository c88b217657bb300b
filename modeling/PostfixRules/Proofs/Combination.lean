import PostfixRules.Combination
import PostfixRules.Proofs.Comparisons

/-!
# Combinations mean what their parts mean

Joining trees from left to right builds a tree that leans to the left, in which every part but the
first two stands at a level of its own. As long as the whole is within the depth limit the levels
make no difference: the combination is decided part by part in the order of the list. Its error is
the first error of a part, its verdict is the conjunction or disjunction of all verdicts, and the
conditions that it reports are those of the parts, one after the other.
-/

namespace PostfixRules

/-! ## The tree of a combination -/

/-- Joining a tree to others never makes it less deep. -/
theorem Expr.depth_le_depth_foldl (operator : LogicalOperator) (first : Expr) (rest : List Expr) :
    first.depth ≤ (rest.foldl (.logical operator) first).depth := by
  induction rest generalizing first with
  | nil => exact Nat.le_refl _
  | cons next rest ih =>
    have hjoined : first.depth ≤ (Expr.logical operator first next).depth := by
      simp only [Expr.depth]
      omega
    exact Nat.le_trans hjoined (ih _)

/-- Joining further trees succeeds exactly if the result is within the depth limit, which a tree to
which nothing is joined need not be. -/
theorem combineOnto_eq_ok_iff {operator : LogicalOperator} {first expr : Expr} {ordinal : Nat}
    {rest : List Expr} :
    combineOnto operator first first.depth ordinal rest = .ok expr ↔
      rest.foldl (.logical operator) first = expr ∧ (rest = [] ∨ expr.depth ≤ maxDepth) := by
  induction rest generalizing first ordinal with
  | nil => simp [combineOnto]
  | cons next rest ih =>
    have hdepth : 1 + max first.depth next.depth = (Expr.logical operator first next).depth := rfl
    have hle := Expr.depth_le_depth_foldl operator (.logical operator first next) rest
    rw [combineOnto, List.foldl_cons, hdepth]
    by_cases hdeep : maxDepth < (Expr.logical operator first next).depth
    · have hwhole := Nat.lt_of_lt_of_le hdeep hle
      rw [if_pos hdeep]
      constructor
      · intro h
        cases h
      · rintro ⟨rfl, h | h⟩
        · cases h
        · exact absurd h (Nat.not_le.mpr hwhole)
    · rw [if_neg hdeep, ih]
      constructor
      · rintro ⟨rfl, rfl | h⟩
        · exact ⟨rfl, .inr (Nat.not_lt.mp hdeep)⟩
        · exact ⟨rfl, .inr h⟩
      · rintro ⟨rfl, h | h⟩
        · cases h
        · exact ⟨rfl, .inr h⟩

/-- A combination is the trees joined from left to right, within the depth limit unless it is a
single tree. -/
theorem combine_eq_ok_iff {operator : LogicalOperator} {exprs : List Expr} {expr : Expr} :
    combine operator exprs = .ok expr ↔ ∃ first rest, exprs = first :: rest ∧
      rest.foldl (.logical operator) first = expr ∧ (rest = [] ∨ expr.depth ≤ maxDepth) := by
  cases exprs with
  | nil => simp [combine]
  | cons first rest =>
    rw [combine, combineOnto_eq_ok_iff]
    constructor
    · intro h
      exact ⟨first, rest, rfl, h⟩
    · rintro ⟨_, _, heq, h⟩
      cases heq
      exact h

/-- Joining further trees fails only because the result would be too deep. -/
theorem combineOnto_eq_error {operator : LogicalOperator} {first : Expr} {ordinal : Nat}
    {rest : List Expr} {e : RuleError}
    (h : combineOnto operator first first.depth ordinal rest = .error e) :
    (∃ ordinal depth, e = .invalidNode (.combinedTooDeep ordinal depth)) ∧
      maxDepth < (rest.foldl (.logical operator) first).depth := by
  induction rest generalizing first ordinal with
  | nil => cases h
  | cons next rest ih =>
    have hdepth : 1 + max first.depth next.depth = (Expr.logical operator first next).depth := rfl
    rw [combineOnto, hdepth] at h
    rw [List.foldl_cons]
    by_cases hdeep : maxDepth < (Expr.logical operator first next).depth
    · rw [if_pos hdeep] at h
      cases h
      exact ⟨⟨ordinal, _, rfl⟩,
        Nat.lt_of_lt_of_le hdeep (Expr.depth_le_depth_foldl operator _ rest)⟩
    · rw [if_neg hdeep] at h
      exact ih h

/-- A combination fails for want of trees, or because the trees joined would be too deep. -/
theorem combine_eq_error {operator : LogicalOperator} {exprs : List Expr} {e : RuleError}
    (h : combine operator exprs = .error e) :
    e = .emptyRuleSet ∨ ∃ first rest, exprs = first :: rest ∧
      (∃ ordinal depth, e = .invalidNode (.combinedTooDeep ordinal depth)) ∧
      maxDepth < (rest.foldl (.logical operator) first).depth := by
  cases exprs with
  | nil =>
    cases h
    exact .inl rfl
  | cons first rest => exact .inr ⟨first, rest, rfl, combineOnto_eq_error h⟩

/-! ## Deciding a combination -/

/-- As long as a tree ends within the depth limit it does not matter at which level it stands. -/
theorem evaluateAt_eq_of_depth_le {record : Record} {expr : Expr} {level level' : Nat}
    (h : level + expr.depth ≤ maxDepth + 1) (h' : level' + expr.depth ≤ maxDepth + 1) :
    evaluateAt record level expr = evaluateAt record level' expr := by
  induction expr generalizing level level' with
  | comparison operator field value =>
    simp only [Expr.depth] at h h'
    rw [evaluateAt, evaluateAt, if_neg (by omega), if_neg (by omega)]
  | logical operator left right ihl ihr =>
    simp only [Expr.depth] at h h'
    have hl := @ihl (level + 1) (level' + 1) (by omega) (by omega)
    have hr := @ihr (level + 1) (level' + 1) (by omega) (by omega)
    rw [evaluateAt_logical, evaluateAt_logical, if_neg (by omega), if_neg (by omega), hl, hr]

/-- Within the depth limit the sides of a logical node are decided as trees of their own. -/
theorem evaluate_logical {operator : LogicalOperator} {left right : Expr}
    (h : (Expr.logical operator left right).depth ≤ maxDepth) (record : Record) :
    evaluate (.logical operator left right) record = (evaluate left record).bind fun l =>
      (evaluate right record).map (operator.apply l) := by
  simp only [Expr.depth] at h
  have hl := @evaluateAt_eq_of_depth_le record left 2 1 (by omega) (by omega)
  have hr := @evaluateAt_eq_of_depth_le record right 2 1 (by omega) (by omega)
  rw [evaluate, evaluateAt_logical, if_neg (by decide), hl, hr]
  rfl

/-- Trees joined from left to right are decided from left to right. -/
theorem evaluate_foldl_logical {operator : LogicalOperator} {first : Expr} {rest : List Expr}
    (h : rest = [] ∨ (rest.foldl (.logical operator) first).depth ≤ maxDepth) (record : Record) :
    evaluate (rest.foldl (.logical operator) first) record =
      (evaluate first record).bind fun verdict =>
        (rest.mapM (evaluate · record)).map (List.foldl operator.apply verdict) := by
  induction rest generalizing first with
  | nil =>
    rw [List.foldl_nil]
    cases evaluate first record <;> rfl
  | cons next rest ih =>
    have hdepth := h.resolve_left (List.cons_ne_nil next rest)
    have hjoined : (Expr.logical operator first next).depth ≤ maxDepth :=
      Nat.le_trans (Expr.depth_le_depth_foldl operator _ rest) hdepth
    rw [List.foldl_cons, ih (.inr hdepth), evaluate_logical hjoined]
    cases evaluate first record with
    | error e => rfl
    | ok verdict =>
      cases hnext : evaluate next record with
      | error e =>
        rw [Outcome.mapM_cons_of_error (f := (evaluate · record)) hnext]
        rfl
      | ok verdict' =>
        rw [Outcome.mapM_cons_of_ok (f := (evaluate · record)) hnext]
        cases rest.mapM (evaluate · record) <;> rfl

/-- The verdict on any number of sides that have all been decided. -/
def LogicalOperator.applyAll : LogicalOperator → List Bool → Bool
  | .and, verdicts => verdicts.all id
  | .or, verdicts => verdicts.any id

theorem LogicalOperator.foldl_apply (operator : LogicalOperator) (first : Bool)
    (rest : List Bool) :
    rest.foldl operator.apply first = operator.applyAll (first :: rest) := by
  induction rest generalizing first with
  | nil => cases operator <;> simp [applyAll]
  | cons next rest ih =>
    rw [List.foldl_cons, ih]
    cases operator <;> simp [applyAll, apply, Bool.and_assoc, Bool.or_assoc]

/-- A combination is decided by deciding its parts in the order of the list. -/
theorem evaluate_of_combine {operator : LogicalOperator} {exprs : List Expr} {expr : Expr}
    (h : combine operator exprs = .ok expr) (record : Record) :
    evaluate expr record = (exprs.mapM (evaluate · record)).map operator.applyAll := by
  obtain ⟨first, rest, rfl, rfl, hdepth⟩ := combine_eq_ok_iff.mp h
  rw [evaluate_foldl_logical hdepth]
  cases hfirst : evaluate first record with
  | error e =>
    rw [Outcome.mapM_cons_of_error (f := (evaluate · record)) hfirst]
    rfl
  | ok verdict =>
    rw [Outcome.mapM_cons_of_ok (f := (evaluate · record)) hfirst]
    cases rest.mapM (evaluate · record) with
    | error e => rfl
    | ok verdicts => exact congrArg Except.ok (operator.foldl_apply verdict verdicts)

/-! ## Running a combination -/

theorem Expr.conditions_foldl_logical (record : Record) (operator : LogicalOperator)
    (first : Expr) (rest : List Expr) :
    (rest.foldl (.logical operator) first).conditions record =
      (first :: rest).flatMap (Expr.conditions record) := by
  induction rest generalizing first with
  | nil => simp
  | cons next rest ih =>
    rw [List.foldl_cons, ih]
    simp only [List.flatMap_cons, conditions_logical, List.append_assoc]

/-- Trees that are all decided all run, each reporting its own conditions. -/
theorem exists_runs {record : Record} {exprs : List Expr} {verdicts : List Bool}
    (h : exprs.map (evaluate · record) = verdicts.map .ok) (traced : Bool) :
    ∃ runs : List Execution, exprs.map (Expr.run traced · record) = runs.map .ok ∧
      runs.flatMap (·.findings.conditions) = exprs.flatMap (Expr.conditions record) := by
  induction exprs generalizing verdicts with
  | nil => exact ⟨[], rfl, rfl⟩
  | cons expr exprs ih =>
    cases verdicts with
    | nil => cases h
    | cons verdict verdicts =>
      obtain ⟨hexpr, hexprs⟩ := List.cons.inj h
      dsimp only at hexpr
      rw [evaluate_eq_map_run traced] at hexpr
      obtain ⟨execution, hrun, -⟩ := Outcome.map_eq_ok_iff.mp hexpr
      obtain ⟨runs, hruns, hconditions⟩ := ih hexprs
      refine ⟨execution :: runs, ?_, ?_⟩
      · rw [List.map_cons, List.map_cons, hrun, hruns]
      · rw [List.flatMap_cons, List.flatMap_cons, hconditions, Expr.conditions_of_run hrun]

/-- A combination fails with the first error of its parts. If they all have verdicts, its verdict is
their conjunction or disjunction, and whenever it has one, its run reports the conditions of the
runs of the parts, one after the other. -/
theorem combination_means_parts {operator : LogicalOperator} {exprs : List Expr} {combined : Expr}
    (h : combine operator exprs = .ok combined) (record : Record) :
    (∀ before failing after e, exprs = before ++ failing :: after →
      (∀ expr ∈ before, ∃ verdict, evaluate expr record = .ok verdict) →
      evaluate failing record = .error e → evaluate combined record = .error e) ∧
    (∀ verdicts, exprs.map (evaluate · record) = verdicts.map .ok →
      evaluate combined record = .ok (operator.applyAll verdicts)) ∧
    ∀ traced verdict, evaluate combined record = .ok verdict →
      ∃ (execution : Execution) (runs : List Execution),
        combined.run traced record = .ok execution ∧
        exprs.map (Expr.run traced · record) = runs.map .ok ∧
        execution.findings.conditions = runs.flatMap (·.findings.conditions) := by
  have hcombined := evaluate_of_combine h record
  refine ⟨?_, ?_, ?_⟩
  · rintro before failing after e rfl hbefore hfailing
    rw [hcombined, Outcome.mapM_eq_error_of_first (f := (evaluate · record)) hbefore hfailing]
    rfl
  · intro verdicts hverdicts
    rw [hcombined, Outcome.mapM_eq_ok_iff.mpr hverdicts]
    rfl
  · intro traced verdict hverdict
    obtain ⟨verdicts, hverdicts, -⟩ := Outcome.map_eq_ok_iff.mp (hcombined.symm.trans hverdict)
    obtain ⟨runs, hruns, hconditions⟩ := exists_runs (Outcome.mapM_eq_ok_iff.mp hverdicts) traced
    rw [evaluate_eq_map_run traced] at hverdict
    obtain ⟨execution, hrun, -⟩ := Outcome.map_eq_ok_iff.mp hverdict
    refine ⟨execution, runs, hrun, hruns, ?_⟩
    obtain ⟨first, rest, rfl, rfl, -⟩ := combine_eq_ok_iff.mp h
    rw [Expr.conditions_of_run hrun, hconditions, Expr.conditions_foldl_logical]

/-- Three trees joined with `OR`: the second one alone decides which records are refused, the first
one makes the combination hold, and the third one is decided all the same. -/
theorem combination_means_parts_three :
    ∃ combined exprs, combine .or exprs = .ok combined ∧ exprs.length = 3 ∧
      evaluate combined (.ofPairs [("dept", .string "sales")]) = .error (.missingField "role") ∧
      exprs.map (evaluate · (.ofPairs [("dept", .string "sales"), ("role", .string "clerk")])) =
        [.ok true, .ok false, .ok true] ∧
      evaluate combined (.ofPairs [("dept", .string "sales"), ("role", .string "clerk")]) =
        .ok true := by
  have hcombined : combine .or [.comparison .equal "dept" (.string "sales"),
      .comparison .equal "role" (.string "lead"),
      .comparison .greater "dept" (.string "hr")] = .ok _ := rfl
  have hmissing := (combination_means_parts hcombined
    (.ofPairs [("dept", .string "sales")])).1
      [.comparison .equal "dept" (.string "sales")] (.comparison .equal "role" (.string "lead"))
      [.comparison .greater "dept" (.string "hr")] (.missingField "role") rfl
  have hpresent := (combination_means_parts hcombined
    (.ofPairs [("dept", .string "sales"), ("role", .string "clerk")])).2.1 [true, false, true] rfl
  refine ⟨_, _, hcombined, rfl, hmissing ?_ rfl, rfl, hpresent⟩
  intro expr hexpr
  rw [List.mem_singleton.mp hexpr]
  exact ⟨true, rfl⟩

end PostfixRules
