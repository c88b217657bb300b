import PostfixRules.Compiler
import PostfixRules.Proofs.Canonical

/-!
# Checked trees are never refused

A tree is sound if it is not too deep, every comparison has a field, and no number is infinite or
not-a-number. The check accepts the sound trees and no others, every tree read from rule text is
sound, and running a sound tree fails only where the data do: a field is missing, or two values have
no order.
-/

namespace PostfixRules

/-- Whether the literal may take part in comparisons. -/
def Literal.IsFinite : Literal → Prop
  | .number x => x.isFinite = true
  | .string _ | .boolean _ => True

/-- Every comparison of the tree has a field and a literal that may be compared with. -/
def Expr.HasSoundLeaves : Expr → Prop
  | .comparison _ field value => field ≠ "" ∧ value.IsFinite
  | .logical _ left right => left.HasSoundLeaves ∧ right.HasSoundLeaves

/-- The trees that may be run. -/
structure Expr.IsSound (expr : Expr) : Prop where
  depth_le : expr.depth ≤ maxDepth
  leaves : expr.HasSoundLeaves

theorem Literal.IsCanonical.isFinite {value : Literal} (h : value.IsCanonical) :
    value.IsFinite := by
  cases value with
  | number x => exact h
  | string s => trivial
  | boolean b => trivial

/-- Canonical trees are sound. -/
theorem Expr.IsCanonical.isSound {expr : Expr} (h : expr.IsCanonical) : expr.IsSound := by
  refine ⟨h.depth_le, ?_⟩
  have hleaves := h.leaves
  clear h
  induction expr with
  | comparison operator field value =>
    exact ⟨hleaves.1.isWord.1, Literal.IsCanonical.isFinite hleaves.2⟩
  | logical operator left right ihl ihr => exact ⟨ihl hleaves.1, ihr hleaves.2⟩

/-! ## The check -/

/-- Below the last level nothing is accepted. -/
theorem validateAt_of_lt {path : String} {level : Nat} (h : maxDepth < level) (expr : Expr) :
    validateAt path level expr = .error (.invalidNode (.tooDeepAt path)) := by
  cases expr <;> exact if_pos h

/-- The check of a comparison asks for a field and for a literal that may be compared with. -/
theorem Condition.check_eq_ok_iff {field : String} {expected : Literal} :
    check field expected = .ok () ↔ field ≠ "" ∧ expected.IsFinite := by
  by_cases hfield : field = ""
  · subst hfield
    simp [check]
  · have hempty : field.isEmpty = false := by simpa using hfield
    simp only [check, hempty, Bool.false_eq_true, if_false, ne_eq, hfield, not_false_eq_true,
      true_and]
    cases expected with
    | number x => cases hx : x.isFinite <;> simp [Literal.IsFinite, hx]
    | string s => simp [Literal.IsFinite]
    | boolean b => simp [Literal.IsFinite]

/-- Within the depth limit a comparison is accepted if it passes the check that deciding it makes. -/
theorem validateAt_comparison_eq_ok_iff {path : String} {level : Nat} (hlevel : level ≤ maxDepth)
    {operator : ComparisonOperator} {field : String} {value : Literal} :
    validateAt path level (.comparison operator field value) = .ok () ↔
      field ≠ "" ∧ value.IsFinite := by
  rw [← Condition.check_eq_ok_iff]
  unfold validateAt Condition.check
  rw [if_neg (Nat.not_lt.mpr hlevel)]
  split_ifs with hfield
  · exact iff_of_false nofun nofun
  · cases value with
    | number x => cases hx : x.isFinite <;> simp [hx]
    | string s => exact Iff.rfl
    | boolean b => exact Iff.rfl

/-- The check accepts a tree at a level exactly if the rest of the depth is enough for it and its
leaves are sound. -/
theorem validateAt_eq_ok_iff {path : String} {level : Nat} {expr : Expr} :
    validateAt path level expr = .ok () ↔
      level + expr.depth ≤ maxDepth + 1 ∧ expr.HasSoundLeaves := by
  induction expr generalizing path level with
  | comparison operator field value =>
    by_cases hlevel : maxDepth < level
    · rw [validateAt_of_lt hlevel]
      simp only [Expr.depth, reduceCtorEq, false_iff, not_and]
      omega
    · rw [validateAt_comparison_eq_ok_iff (Nat.not_lt.mp hlevel)]
      have hdepth : level + 1 ≤ maxDepth + 1 := by omega
      exact (and_iff_right hdepth).symm
  | logical operator left right ihl ihr =>
    by_cases hlevel : maxDepth < level
    · rw [validateAt_of_lt hlevel]
      simp only [Expr.depth, reduceCtorEq, false_iff, not_and]
      omega
    · have hdepth : level + (Expr.logical operator left right).depth ≤ maxDepth + 1 ↔
          level + 1 + left.depth ≤ maxDepth + 1 ∧ level + 1 + right.depth ≤ maxDepth + 1 := by
        simp only [Expr.depth]
        omega
      rw [validateAt, if_neg hlevel, hdepth, Expr.HasSoundLeaves]
      cases hl : validateAt (path ++ ".left") (level + 1) left with
      | error e =>
        have hleft : ¬ (level + 1 + left.depth ≤ maxDepth + 1 ∧ left.HasSoundLeaves) := by
          rw [← ihl, hl]
          simp
        simp only [reduceCtorEq, false_iff]
        exact fun h => hleft ⟨h.1.1, h.2.1⟩
      | ok u =>
        have hleft := ihl.mp hl
        dsimp only
        rw [ihr]
        exact ⟨fun h => ⟨⟨hleft.1, h.1⟩, hleft.2, h.2⟩, fun h => ⟨h.1.2, h.2.2⟩⟩

/-- The check accepts exactly the sound trees, whatever the root is called. -/
theorem validate_eq_ok_iff {expr : Expr} {path : String} :
    validate expr path = .ok () ↔ expr.IsSound := by
  rw [validate, validateAt_eq_ok_iff]
  constructor
  · intro h
    exact ⟨by omega, h.2⟩
  · intro h
    have := h.depth_le
    exact ⟨by omega, h.leaves⟩

/-- What the check refuses it refuses for a defect of a node. -/
theorem exists_defect_of_validateAt {path : String} {level : Nat} {expr : Expr} {e : RuleError}
    (h : validateAt path level expr = .error e) : ∃ defect, e = .invalidNode defect := by
  induction expr generalizing path level with
  | comparison operator field value =>
    unfold validateAt at h
    split_ifs at h
    · cases h
      exact ⟨_, rfl⟩
    · cases h
      exact ⟨_, rfl⟩
    · cases value with
      | number x =>
        dsimp only at h
        split_ifs at h
        cases h
        exact ⟨_, rfl⟩
      | string s => cases h
      | boolean b => cases h
  | logical operator left right ihl ihr =>
    rw [validateAt] at h
    split_ifs at h
    · cases h
      exact ⟨_, rfl⟩
    · split at h
      · rename_i e' hl
        cases h
        exact ihl hl
      · exact ihr h

/-! ## Running -/

/-- The errors that lie in the data and not in the tree. -/
def RuleError.IsDataError : RuleError → Prop
  | .missingField _ | .typeMismatch _ _ _ _ => True
  | _ => False

/-- The codes of the errors that lie in the data. -/
theorem RuleError.IsDataError.code_mem {e : RuleError} (h : e.IsDataError) :
    e.code ∈ ["MISSING_FIELD", "TYPE_MISMATCH"] := by
  cases e with
  | missingField field => exact List.mem_cons_self
  | typeMismatch operator field expected actual => exact List.mem_cons_of_mem _ List.mem_cons_self
  | _ => cases h

/-- The check of a comparison fails for want of a field, or for the number. -/
theorem Condition.check_eq_error {field : String} {expected : Literal} {e : RuleError}
    (h : check field expected = .error e) :
    e = .invalidNode .emptyField ∨ ∃ x, e = .invalidNode (.notFinite field x) := by
  unfold check at h
  split_ifs at h
  · cases h
    exact .inl rfl
  · split at h
    · split_ifs at h
      cases h
      exact .inr ⟨_, rfl⟩
    · cases h

/-- A comparison that passes its check fails only for the data. -/
theorem Condition.isDataError_of_verdict {field : String} {actual : Option Json}
    {operator : ComparisonOperator} {expected : Literal} {e : RuleError}
    (hfield : field ≠ "") (hfinite : expected.IsFinite)
    (h : verdict field actual operator expected = .error e) : e.IsDataError := by
  unfold verdict at h
  rw [check_eq_ok_iff.mpr ⟨hfield, hfinite⟩] at h
  cases actual with
  | none =>
    cases h
    trivial
  | some value =>
    dsimp only at h
    split_ifs at h
    split at h
    · cases h
    · cases h
      trivial

/-- A comparison that is decided, whatever the value of its field, passes its check. -/
theorem Condition.check_of_verdict {field : String} {actual : Option Json}
    {operator : ComparisonOperator} {expected : Literal} {matched : Bool}
    (h : verdict field actual operator expected = .ok matched) :
    check field expected = .ok () := by
  unfold verdict at h
  cases hcheck : check field expected with
  | error e =>
    rw [hcheck] at h
    cases h
  | ok u => rfl

/-- Running a sound tree at a level with enough depth left fails only for the data. -/
theorem isDataError_of_runAt {record : Record} {traced : Bool} {path : String} {level : Nat}
    {expr : Expr} {e : RuleError} (hdepth : level + expr.depth ≤ maxDepth + 1)
    (hleaves : expr.HasSoundLeaves) (h : runAt record traced path level expr = .error e) :
    e.IsDataError := by
  induction expr generalizing path level with
  | comparison operator field value =>
    simp only [Expr.depth] at hdepth
    rw [runAt, if_neg (by omega)] at h
    cases hv : Condition.verdict field (record.field? field) operator value with
    | error e' =>
      rw [hv] at h
      cases h
      exact Condition.isDataError_of_verdict hleaves.1 hleaves.2 hv
    | ok matched =>
      rw [hv] at h
      cases h
  | logical operator left right ihl ihr =>
    simp only [Expr.depth] at hdepth
    rw [runAt, if_neg (by omega)] at h
    split at h
    · rename_i e' hl
      cases h
      exact ihl (by omega) hleaves.1 hl
    · split at h
      · rename_i e' hr
        cases h
        exact ihr (by omega) hleaves.2 hr
      · cases h

/-- Running a sound tree fails only for the data. -/
theorem isDataError_of_execute {record : Record} {traced : Bool} {expr : Expr} {e : RuleError}
    (hsound : expr.IsSound) (h : execute traced expr record = .error e) : e.IsDataError := by
  have hdepth := hsound.depth_le
  exact isDataError_of_runAt (by omega) hsound.leaves h

end PostfixRules
