import PostfixRules.Proofs.Text.Words
import PostfixRules.Text.Segments

/-!
# Segments and the text that they make up

Cutting at a mark is the split of the standard library. The segments of a text are therefore the
only texts without marks that make up the text again when they are joined with marks between them.
-/

namespace PostfixRules.Text

/-- Cutting from the right is splitting from the left. -/
theorem cutAt_eq_splitOn (mark : Char) (chars : List Char) :
    cutAt mark chars = chars.splitOn mark := by
  induction chars with
  | nil => rfl
  | cons c rest ih =>
    have hstep : cutAt mark (c :: rest) = extendSegments mark c (cutAt mark rest) := rfl
    rw [hstep, ih, List.splitOn_cons_eq_if_modifyHead]
    cases hsplit : rest.splitOn mark with
    | nil => exact absurd hsplit (List.splitOn_ne_nil mark rest)
    | cons first others => simp only [extendSegments, List.modifyHead_cons, beq_iff_eq]

/-- The segments of a text make it up, have no marks, and are determined by that. -/
theorem segments_eq_iff {mark : Char} {text : String} {parts : List String} :
    segments mark text = parts ↔ parts ≠ [] ∧ (∀ part ∈ parts, mark ∉ part.toList) ∧
      String.intercalate (String.singleton mark) parts = text := by
  rw [segments, cutAt_eq_splitOn, ← String.toList_inj, String.toList_intercalate,
    String.toList_singleton]
  constructor
  · rintro rfl
    have hpieces : ((text.toList.splitOn mark).map String.ofList).map String.toList =
        text.toList.splitOn mark := by
      simp only [List.map_map, Function.comp_def, String.toList_ofList, List.map_id']
    refine ⟨?_, ?_, ?_⟩
    · intro h
      exact List.splitOn_ne_nil mark _ (List.map_eq_nil_iff.mp h)
    · intro part hpart hmark
      obtain ⟨piece, hpiece, rfl⟩ := List.mem_map.mp hpart
      rw [String.toList_ofList] at hmark
      have hsplits := not_mem_of_mem_splitOnP hpiece mark hmark
      rw [beq_self_eq_true] at hsplits
      cases hsplits
    · rw [hpieces, List.intercalate_splitOn]
  · rintro ⟨hparts, hmarks, htext⟩
    have hpieces : ∀ piece ∈ parts.map String.toList, mark ∉ piece := by
      intro piece hpiece
      obtain ⟨part, hpart, rfl⟩ := List.mem_map.mp hpiece
      exact hmarks part hpart
    have hne : parts.map String.toList ≠ [] := fun h => hparts (List.map_eq_nil_iff.mp h)
    rw [← htext, List.splitOn_intercalate mark hpieces hne, List.map_map]
    simp only [Function.comp_def, String.ofList_toList, List.map_id']

end PostfixRules.Text
