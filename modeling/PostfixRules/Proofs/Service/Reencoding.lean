import PostfixRules.Proofs.Service.Operation

/-!
# Submitted trees can be encoded again

A tree is spelled as JSON in many ways: keys come in any order and among others, nodes and literals
may be arrays of their parts, and whole numbers stand for doubles. Writing the tree that a form
denotes gives one of these forms, which has no number that is not finite and so denotes the tree
again. It is the only form written for any tree that does, and submitting it in place of another
form of the tree changes nothing about a run.
-/

namespace PostfixRules

namespace Expr

theorem decode_eq_ok_iff {form : Json} {expr : Expr} :
    decode form = .ok expr ↔ ofJson? form = some expr := by
  rw [decode]
  cases ofJson? form <;> simp

/-- Whatever form a tree was decoded from, its numbers are finite. -/
theorem hasFiniteNumbers_of_decode {form : Json} {expr : Expr} (h : decode form = .ok expr) :
    expr.HasFiniteNumbers :=
  hasFiniteNumbers_of_ofJsonAt? (decode_eq_ok_iff.mp h)

/-- A form written for a tree is decoded to no other tree. -/
theorem eq_of_decode_toJson {expr other : Expr} (h : decode other.toJson = .ok expr) :
    other = expr := by
  by_cases hfinite : other.HasFiniteNumbers
  · rw [decode_toJson hfinite] at h
    exact Except.ok.inj h
  · rw [decode_toJson_of_not_hasFiniteNumbers hfinite] at h
    cases h

/-- The form written for a decoded tree is decoded as the form that it came from. -/
theorem decode_toJson_of_decode {form : Json} {expr : Expr} (h : decode form = .ok expr) :
    decode expr.toJson = decode form := by
  rw [h, decode_toJson (hasFiniteNumbers_of_decode h)]

end Expr

namespace Service

/-- A form that denotes a tree can be replaced by the one written for the tree. The tree has finite
numbers and is decoded from no other written form; deciding it, running it and submitting it come to
the same through both forms, whether that is a verdict with its conditions and trace or an error. -/
theorem submission_reencodes {form : Json} {expr : Expr} (h : Expr.decode form = .ok expr) :
    expr.HasFiniteNumbers ∧ Expr.decode expr.toJson = .ok expr ∧
    (∀ other : Expr, Expr.decode other.toJson = .ok expr → other = expr) ∧
    (∀ record, (Expr.decode expr.toJson).bind (evaluate · record) =
      (Expr.decode form).bind (evaluate · record)) ∧
    (∀ traced record, (Expr.decode expr.toJson).bind (Expr.run traced · record) =
      (Expr.decode form).bind (Expr.run traced · record)) ∧
    ∀ store data traced, runPayload store ⟨some expr.toJson, none, data, traced⟩ =
      runPayload store ⟨some form, none, data, traced⟩ := by
  have hfinite := Expr.hasFiniteNumbers_of_decode h
  have hsame := Expr.decode_toJson_of_decode h
  refine ⟨hfinite, Expr.decode_toJson hfinite, fun _ => Expr.eq_of_decode_toJson, ?_, ?_, ?_⟩
  · intro record
    rw [hsame]
  · intro traced record
    rw [hsame]
  · intro store data traced
    have hadmitted : Expr.admitted expr.toJson = Expr.admitted form := by
      rw [Expr.admitted, Expr.admitted, hsame]
    rw [runPayload_submission store rfl, runPayload_submission store rfl, hadmitted]

/-- A node given as the array of its parts, with one side an object in disorder and the other one an
array that numbers its kind, and with operators and kinds given as keys. -/
def mixedForm : Json :=
  .array [.string "operator", .object [("AND", .null)],
    .object [("value", .array [.string "number", .ofNat 30]), ("note", .bool false),
      ("field", .string "age"), ("operator", .object [(">=", .null)]),
      ("type", .string "comparison")],
    .array [.ofNat 1, .string "=", .string "dept", .object [("value", .string "hr"),
      ("extra", .array []), ("type", .object [("string", .null)])]]]

/-- That form has the meaning of the one written for its tree. -/
theorem submission_reencodes_mixed :
    ∃ expr : Expr, Expr.decode mixedForm = .ok expr ∧ expr.HasFiniteNumbers ∧
      Expr.decode expr.toJson = .ok expr ∧
      (Expr.decode expr.toJson).bind (evaluate · (.ofPairs [("age", .ofNat 41),
        ("dept", .string "hr")])) = .ok true ∧
      (Expr.decode expr.toJson).bind (evaluate · (.ofPairs [("age", .ofNat 41)])) =
        .error (.missingField "dept") := by
  have hform : Expr.decode mixedForm = .ok (.logical .and
      (.comparison .atLeast "age" (.number (Double.ofInt 30)))
      (.comparison .equal "dept" (.string "hr"))) :=
    Expr.decode_eq_ok_iff.mpr (by decide +kernel)
  obtain ⟨hfinite, hdecode, -, hevaluate, -⟩ := submission_reencodes hform
  refine ⟨_, hform, hfinite, hdecode, ?_, ?_⟩
  · rw [hevaluate, hform]
    decide +kernel
  · rw [hevaluate, hform]
    decide +kernel

end Service

end PostfixRules
