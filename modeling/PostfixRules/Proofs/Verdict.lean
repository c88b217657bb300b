import PostfixRules.Proofs.Execution
import PostfixRules.Proofs.Validation

/-!
# A verdict certifies its tree

The check of a tree and the two ways of deciding it walk over the tree one by one, each with a level
and with conditions on comparisons of its own. They enforce the same: a tree that the check accepts
is refused by neither way, on no record, and a tree that the check refuses has no verdict on any.
-/

namespace PostfixRules

/-- A tree that is decided at a level ends within the depth limit, and its leaves are sound. Both
sides of a logical node are decided, so that no part of the tree is passed over. -/
theorem depth_le_and_leaves_of_evaluateAt {record : Record} {level : Nat} {expr : Expr}
    {verdict : Bool} (h : evaluateAt record level expr = .ok verdict) :
    level + expr.depth ≤ maxDepth + 1 ∧ expr.HasSoundLeaves := by
  induction expr generalizing level verdict with
  | comparison operator field value =>
    rw [evaluateAt] at h
    split_ifs at h with hlevel
    have hcheck := Condition.check_of_verdict h
    refine ⟨?_, Condition.check_eq_ok_iff.mp hcheck⟩
    simp only [Expr.depth]
    omega
  | logical operator left right ihl ihr =>
    rw [evaluateAt_logical] at h
    split_ifs at h with hlevel
    obtain ⟨l, hl, h⟩ := Outcome.bind_eq_ok_iff.mp h
    obtain ⟨r, hr, -⟩ := Outcome.map_eq_ok_iff.mp h
    obtain ⟨hdepthl, hleavesl⟩ := ihl hl
    obtain ⟨hdepthr, hleavesr⟩ := ihr hr
    refine ⟨?_, hleavesl, hleavesr⟩
    simp only [Expr.depth]
    omega

/-- Only sound trees have a verdict. -/
theorem isSound_of_evaluate {expr : Expr} {record : Record} {verdict : Bool}
    (h : evaluate expr record = .ok verdict) : expr.IsSound := by
  obtain ⟨hdepth, hleaves⟩ := depth_le_and_leaves_of_evaluateAt h
  exact ⟨by omega, hleaves⟩

/-- Only sound trees run. -/
theorem Expr.isSound_of_run {traced : Bool} {expr : Expr} {record : Record} {execution : Execution}
    (h : expr.run traced record = .ok execution) : expr.IsSound := by
  have hverdict : evaluate expr record = .ok execution.findings.matched := by
    rw [evaluate_eq_map_run traced, h]
    rfl
  exact isSound_of_evaluate hverdict

/-- A sound tree, run by itself, fails only for the data. -/
theorem Expr.isDataError_of_run {traced : Bool} {expr : Expr} {record : Record} {e : RuleError}
    (hsound : expr.IsSound) (h : expr.run traced record = .error e) : e.IsDataError :=
  isDataError_of_execute hsound (Outcome.map_eq_error_iff.mp h)

/-- A sound tree is decided unless the data are at fault. -/
theorem isDataError_of_evaluate {expr : Expr} {record : Record} {e : RuleError}
    (hsound : expr.IsSound) (h : evaluate expr record = .error e) : e.IsDataError := by
  rw [evaluate_eq_map_execute false] at h
  exact isDataError_of_execute hsound (Outcome.map_eq_error_iff.mp h)

/-- The check accepts a tree exactly if neither way of deciding it can find fault with the tree
itself: an accepted tree fails only for the data, a refused one fails on every record, and one
verdict on whatever record shows that a tree is sound. -/
theorem validate_iff_never_refused (expr : Expr) (path : String) :
    (validate expr path = .ok () → ∀ record traced,
      (∀ e, evaluate expr record = .error e → e.IsDataError) ∧
      ∀ e, expr.run traced record = .error e → e.IsDataError) ∧
    (∀ e, validate expr path = .error e → ∀ record traced,
      (∃ e', evaluate expr record = .error e') ∧ ∃ e', expr.run traced record = .error e') ∧
    ∀ record traced, (∀ verdict, evaluate expr record = .ok verdict → expr.IsSound) ∧
      ∀ execution, expr.run traced record = .ok execution → expr.IsSound := by
  refine ⟨?_, ?_, ?_⟩
  · intro hvalid record traced
    have hsound := validate_eq_ok_iff.mp hvalid
    exact ⟨fun e he => isDataError_of_evaluate hsound he,
      fun e he => Expr.isDataError_of_run hsound he⟩
  · intro e hinvalid record traced
    have hunsound : ¬ expr.IsSound := by
      intro hsound
      rw [validate_eq_ok_iff.mpr hsound] at hinvalid
      cases hinvalid
    constructor
    · cases hverdict : evaluate expr record with
      | error e' => exact ⟨e', rfl⟩
      | ok verdict => exact absurd (isSound_of_evaluate hverdict) hunsound
    · cases hrun : expr.run traced record with
      | error e' => exact ⟨e', rfl⟩
      | ok execution => exact absurd (Expr.isSound_of_run hrun) hunsound
  · intro record traced
    exact ⟨fun verdict h => isSound_of_evaluate h, fun execution h => Expr.isSound_of_run h⟩

end PostfixRules
