import PostfixRules.Proofs.Combination
import PostfixRules.Proofs.Evaluation

/-!
# How deep a combination is

The depth of a combination is measured each time that a tree is joined to the others. Two or more
trees are therefore combined exactly if the tree that they make up is within the depth limit, and
deciding it never fails for its depth. A single tree is not joined to anything and is not measured:
it is handed on as it is, and if it is beyond the limit it has no verdict on any record.
-/

namespace PostfixRules

/-! ## Levels that are decided -/

/-- A single comparison is never too deep. -/
theorem Condition.verdict_ne_tooDeepToDecide (field : String) (actual : Option Json)
    (operator : ComparisonOperator) (expected : Literal) :
    verdict field actual operator expected ≠ .error (.invalidNode .tooDeepToDecide) := by
  intro h
  cases hcheck : check field expected with
  | ok u =>
    obtain ⟨hfield, hfinite⟩ := check_eq_ok_iff.mp hcheck
    cases isDataError_of_verdict hfield hfinite h
  | error e =>
    unfold verdict at h
    rw [hcheck] at h
    cases h
    rcases check_eq_error hcheck with he | ⟨x, he⟩ <;> cases he

/-- Deciding a tree within the depth limit never fails for its depth. -/
theorem evaluate_ne_tooDeepToDecide {expr : Expr} (h : expr.depth ≤ maxDepth) (record : Record) :
    evaluate expr record ≠ .error (.invalidNode .tooDeepToDecide) := by
  intro herror
  obtain ⟨-, failing, -, -, -, hfailing⟩ := (evaluate_eq_error_iff h).mp herror
  exact Condition.verdict_ne_tooDeepToDecide _ _ _ _ hfailing

/-- A tree beyond the depth limit has no verdict. -/
theorem exists_evaluate_eq_error_of_deep {expr : Expr} (h : maxDepth < expr.depth)
    (record : Record) : ∃ e, evaluate expr record = .error e := by
  cases hverdict : evaluate expr record with
  | error e => exact ⟨e, rfl⟩
  | ok verdict => exact absurd (isSound_of_evaluate hverdict).depth_le (Nat.not_le.mpr h)

/-! ## Joining trees -/

/-- The trees of a list joined from left to right, however deep they become. -/
def Expr.joined? (operator : LogicalOperator) : List Expr → Option Expr
  | [] => none
  | first :: rest => some (rest.foldl (.logical operator) first)

/-- Trees are combined exactly if there is just one, or if there are some and they are joined within
the depth limit. -/
theorem combine_eq_ok_iff_joined? {operator : LogicalOperator} {exprs : List Expr} {expr : Expr} :
    combine operator exprs = .ok expr ↔
      Expr.joined? operator exprs = some expr ∧ (exprs = [expr] ∨ expr.depth ≤ maxDepth) := by
  cases exprs with
  | nil => simp [combine, Expr.joined?]
  | cons first rest =>
    rw [combine, combineOnto_eq_ok_iff, Expr.joined?, Option.some.injEq]
    refine and_congr_right fun hjoined => or_congr_left ⟨?_, fun h => (List.cons.inj h).2⟩
    rintro rfl
    rw [← hjoined, List.foldl_nil]

/-- Only for want of trees does combining them fail as it does for none. -/
theorem combine_eq_emptyRuleSet_iff {operator : LogicalOperator} {exprs : List Expr} :
    combine operator exprs = .error .emptyRuleSet ↔ exprs = [] := by
  constructor
  · intro h
    cases exprs with
    | nil => rfl
    | cons first rest =>
      obtain ⟨⟨ordinal, depth, he⟩, -⟩ := combineOnto_eq_error h
      cases he
  · rintro rfl
    rfl

/-- Trees are refused for their depth exactly if there are two or more and they are joined beyond
the depth limit. -/
theorem exists_combine_eq_invalidNode_iff {operator : LogicalOperator} {exprs : List Expr} :
    (∃ defect, combine operator exprs = .error (.invalidNode defect)) ↔
      1 < exprs.length ∧
        ∃ expr, Expr.joined? operator exprs = some expr ∧ maxDepth < expr.depth := by
  constructor
  · rintro ⟨defect, h⟩
    rcases combine_eq_error h with he | ⟨first, rest, rfl, -, hdeep⟩
    · cases he
    · refine ⟨?_, _, rfl, hdeep⟩
      cases rest with
      | nil => cases h
      | cons next rest => exact Nat.succ_lt_succ (Nat.succ_pos _)
  · rintro ⟨hlength, expr, hjoined, hdeep⟩
    cases h : combine operator exprs with
    | ok combined =>
      obtain ⟨hcombined, rfl | hdepth⟩ := combine_eq_ok_iff_joined?.mp h
      · exact absurd hlength (Nat.lt_irrefl 1)
      · rw [hjoined, Option.some.injEq] at hcombined
        exact absurd hdepth (Nat.not_le.mpr (hcombined ▸ hdeep))
    | error e =>
      rcases combine_eq_error h with rfl | ⟨-, -, -, ⟨ordinal, depth, rfl⟩, -⟩
      · rw [combine_eq_emptyRuleSet_iff.mp h] at hjoined
        cases hjoined
      · exact ⟨_, rfl⟩

/-- Combining gives the trees joined from left to right, if this is within the depth limit or there
is but one tree; it fails for want of trees on the empty list only, and for the depth in all other
cases. Deciding a combination never fails for its depth, unless it is a single tree beyond the
limit: this is handed on, but it has no verdict on any record. -/
theorem combine_joined_within_depth (operator : LogicalOperator) (exprs : List Expr) :
    (∀ expr, combine operator exprs = .ok expr ↔
      Expr.joined? operator exprs = some expr ∧ (exprs = [expr] ∨ expr.depth ≤ maxDepth)) ∧
    (combine operator exprs = .error .emptyRuleSet ↔ exprs = []) ∧
    ((∃ defect, combine operator exprs = .error (.invalidNode defect)) ↔
      1 < exprs.length ∧
        ∃ expr, Expr.joined? operator exprs = some expr ∧ maxDepth < expr.depth) ∧
    ∀ expr, combine operator exprs = .ok expr →
      (expr.depth ≤ maxDepth ∧
        ∀ record, evaluate expr record ≠ .error (.invalidNode .tooDeepToDecide)) ∨
      (exprs = [expr] ∧ maxDepth < expr.depth ∧
        ∀ record, ∃ e, evaluate expr record = .error e) := by
  refine ⟨fun expr => combine_eq_ok_iff_joined?, combine_eq_emptyRuleSet_iff,
    exists_combine_eq_invalidNode_iff, ?_⟩
  intro expr h
  by_cases hdepth : expr.depth ≤ maxDepth
  · exact .inl ⟨hdepth, evaluate_ne_tooDeepToDecide hdepth⟩
  · have hdeep := Nat.lt_of_not_le hdepth
    have hsingle := (combine_eq_ok_iff_joined?.mp h).2.resolve_right hdepth
    exact .inr ⟨hsingle, hdeep, exists_evaluate_eq_error_of_deep hdeep⟩

/-- A hundred and one comparisons joined are one level beyond the limit. Combining the tree that
they make up hands it on all the same, and it is then too deep to be decided. -/
theorem combine_single_beyond_depth :
    ∃ deep : Expr,
      Expr.joined? .and (List.replicate 101 (.comparison .equal "a" (.boolean true))) =
        some deep ∧
      combine .and [deep] = .ok deep ∧ deep.depth = maxDepth + 1 ∧
      evaluate deep (.ofPairs [("a", .bool true)]) = .error (.invalidNode .tooDeepToDecide) :=
  ⟨_, rfl, rfl, by decide +kernel, by decide +kernel⟩

end PostfixRules
