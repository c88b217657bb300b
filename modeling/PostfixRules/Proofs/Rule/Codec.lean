import PostfixRules.Proofs.Expr.Codec
import PostfixRules.Proofs.Json.Form
import PostfixRules.Proofs.Time.Text
import PostfixRules.Rule.Codec

/-!
# Rules through JSON

The document written for a rule is read as the rule, with its times to the nanosecond, provided that
its tree is within the depth limit and has finite numbers, and that its times are in years that are
written without a sign. The time of reading does not matter, since no field is left out.
-/

namespace PostfixRules.Rule

/-- The members of the JSON form of a rule. -/
def members (rule : Rule) : List (String × Json) :=
  [("id", .string rule.id), ("name", .string rule.name), ("description", .string rule.description),
    ("ast", rule.expr.toJson), ("createdAt", .string rule.createdAt.text),
    ("updatedAt", .string rule.updatedAt.text)]

/-- The form of a rule has a field for every member that is written. -/
theorem fitsForm_members {rule : Rule} (hdepth : rule.expr.depth ≤ maxDepth) :
    Json.FitsForm (Json.nestingLimit - 1) formFields rule.members := by
  have hexpr : rule.expr.toJson.nesting ≤ Json.nestingLimit - 1 := by
    rw [Expr.nesting_toJson]
    exact Nat.le_trans (Nat.succ_le_succ hdepth) (by decide)
  refine ⟨?_, by simp [members]⟩
  intro member hm
  simp only [members, List.mem_cons, List.not_mem_nil, or_false] at hm
  rcases hm with rfl | rfl | rfl | rfl | rfl | rfl
  · exact ⟨_, rfl, trivial⟩
  · exact ⟨_, rfl, trivial⟩
  · exact ⟨_, rfl, trivial⟩
  · exact ⟨_, rfl, hexpr⟩
  · exact ⟨_, rfl, trivial⟩
  · exact ⟨_, rfl, trivial⟩

/-- Every field of the form is filled in. -/
theorem collect_members (rule : Rule) : Json.collect formFields rule.members =
    .ok (rule.members.map fun member => some member.2) := rfl

/-- The filled-in form gives the rule back. -/
theorem ofFields?_members {rule : Rule} (hfinite : rule.expr.HasFiniteNumbers)
    (hcreated : rule.createdAt.HasPlainYear) (hupdated : rule.updatedAt.HasPlainYear)
    (now : Timestamp) :
    ofFields? now (rule.members.map fun member => some member.2) = some rule := by
  have hexpr : Expr.ofJson? rule.expr.toJson = some rule.expr :=
    Expr.ofJsonAt?_toJson hfinite false
  simp only [members, List.map_cons, List.map_nil, ofFields?, Json.text?, textOr, timeOr, hexpr,
    Option.bind_eq_bind, Option.bind_some, Timestamp.read?_text hcreated,
    Timestamp.read?_text hupdated]

/-- The document of a rule is read as the rule. -/
theorem ofText_write_toJson {rule : Rule} (hdepth : rule.expr.depth ≤ maxDepth)
    (hfinite : rule.expr.HasFiniteNumbers) (hcreated : rule.createdAt.HasPlainYear)
    (hupdated : rule.updatedAt.HasPlainYear) (now : Timestamp) :
    ofText now (Json.write rule.toJson) = .ok rule := by
  have hfill : Json.fillIn formFields (Json.write rule.toJson) =
      Json.collect formFields rule.members :=
    Json.fillIn_of_scan (Json.scan_write rule.toJson) (fitsForm_members hdepth)
  simp only [ofText, hfill, collect_members, ofFields?_members hfinite hcreated hupdated now]

end PostfixRules.Rule
