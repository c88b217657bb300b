import PostfixRules.Compiler
import PostfixRules.Proofs.Text.ByteOrder

/-!
# The fields that a rule reads

The fields listed with a compiled rule are those of the comparisons of its tree: every one of them
and no others, each once, in the order of their bytes.
-/

namespace PostfixRules

theorem mem_insertName {name other : String} {names : List String} :
    other ∈ insertName name names ↔ other = name ∨ other ∈ names := by
  induction names with
  | nil => simp [insertName]
  | cons first rest ih =>
    rw [insertName]
    cases horder : Text.byteOrder name first with
    | lt => exact List.mem_cons
    | eq =>
      have hfirst : name = first := Std.LawfulEqCmp.eq_of_compare horder
      rw [hfirst]
      simp
    | gt =>
      dsimp only
      rw [List.mem_cons, List.mem_cons, ih]
      exact or_left_comm

/-- Names that are listed strictly in byte order stay so when one is put among them. -/
theorem pairwise_insertName (name : String) {names : List String}
    (h : names.Pairwise fun a b => Text.byteOrder a b = .lt) :
    (insertName name names).Pairwise fun a b => Text.byteOrder a b = .lt := by
  induction names with
  | nil => exact List.pairwise_singleton _ _
  | cons first rest ih =>
    obtain ⟨hfirst, hrest⟩ := List.pairwise_cons.mp h
    rw [insertName]
    cases horder : Text.byteOrder name first with
    | lt =>
      refine List.pairwise_cons.mpr ⟨?_, h⟩
      intro other hother
      rcases List.mem_cons.mp hother with rfl | hother
      · exact horder
      · exact Std.TransCmp.lt_trans horder (hfirst other hother)
    | eq => exact h
    | gt =>
      refine List.pairwise_cons.mpr ⟨?_, ih hrest⟩
      intro other hother
      rcases mem_insertName.mp hother with rfl | hother
      · exact Std.OrientedCmp.lt_of_gt horder
      · exact hfirst other hother

namespace Expr

/-- A field is required exactly if a comparison names it. -/
theorem mem_requiredFields {expr : Expr} {field : String} :
    field ∈ expr.requiredFields ↔ field ∈ expr.fields := by
  rw [requiredFields]
  induction expr.fields with
  | nil => rfl
  | cons first rest ih => rw [List.foldr_cons, mem_insertName, ih, List.mem_cons]

theorem pairwise_requiredFields (expr : Expr) :
    expr.requiredFields.Pairwise fun a b => Text.byteOrder a b = .lt := by
  rw [requiredFields]
  induction expr.fields with
  | nil => exact List.Pairwise.nil
  | cons first rest ih => exact pairwise_insertName first ih

/-- No field is listed twice. -/
theorem nodup_requiredFields (expr : Expr) : expr.requiredFields.Nodup := by
  refine expr.pairwise_requiredFields.imp ?_
  intro a b hlt heq
  have hself : Text.byteOrder b b = .eq := Std.ReflCmp.compare_self
  rw [heq, hself] at hlt
  cases hlt

end Expr

end PostfixRules
