import PostfixRules.Proofs.Expr.Decoding
import PostfixRules.Proofs.Service.Operation

/-!
# Submitted trees are judged before the data

A form that is submitted as a tree is decoded and checked before it is run, and neither of these
looks at the data. So whether the form is refused, and with which message, is the same for all data;
without the check it would depend on them, since a missing field would hide a defect further right.
A form that is not refused is answered with what deciding its tree gives.
-/

namespace PostfixRules

/-- Whether a request submits a form to be run on data. -/
def Request.Submits (request : Request) (form data : Json) (traced : Bool) : Prop :=
  ∃ members, EvaluatePayload.IsSubmission members form data traced ∧
    request.Carries "/api/rules/evaluate" (.object members)

/-- Whether a response tells what deciding a tree has come to. -/
def Response.Decides (response : Response) : Except RuleError Bool → Prop
  | .ok verdict => response.status = 200 ∧ response.body.datum? "result" = some (.bool verdict)
  | .error error => response.Tells error.code error.message

namespace Service

variable {form : Json} {members : List (String × Json)} {traced : Bool} {request : Request}

/-- A submission within the limits is answered with what running the admitted tree has come to. -/
theorem handle_submits (store : Store) (draws : Draws) (hnull : form.isNull = false)
    (hform : form.nesting ≤ 126) (hdata : (Json.object members).nesting ≤ 126)
    (hrequest : request.Submits form (.object members) traced) :
    (handle store draws request).response.Shows
      (.ofResult 200 (Execution.toJson · draws.evaluationMillis)
        ((Expr.admitted form.settle).bind fun expr =>
          expr.run traced ⟨(Json.object members).settle⟩)) := by
  obtain ⟨sent, hsent, hcarries⟩ := hrequest
  have hdecode :=
    EvaluatePayload.decode_of_isSubmission hcarries.tokens hsent hform hnull hdata
  have hshows := (handle_evaluate store draws hcarries hdecode).response
  rw [evaluateRule_reply rfl, runPayload_submission store rfl] at hshows
  exact hshows

/-- The answer to a submission blames the tree exactly if the form is not admitted, with the message
of the error found then. An admitted tree is sound, so that only the data can be at fault. -/
theorem tells_invalidNode_iff (store : Store) (draws : Draws) (hnull : form.isNull = false)
    (hform : form.nesting ≤ 126) (hdata : (Json.object members).nesting ≤ 126)
    (hrequest : request.Submits form (.object members) traced) {message : String} :
    (handle store draws request).response.Tells "INVALID_NODE" message ↔
      ∃ e, Expr.admitted form.settle = .error e ∧ e.message = message := by
  rw [(handle_submits store draws hnull hform hdata hrequest).tells_iff]
  simp only [Reply.ofResult_eq_failure_iff]
  cases hadmitted : Expr.admitted form.settle with
  | error e =>
    obtain ⟨defect, rfl⟩ := Expr.exists_defect_of_admitted hadmitted
    constructor
    · rintro ⟨error, herror, -, hmessage⟩
      cases herror
      exact ⟨_, rfl, hmessage⟩
    · rintro ⟨error, herror, hmessage⟩
      cases herror
      exact ⟨_, rfl, rfl, hmessage⟩
  | ok expr =>
    have hsound := (Expr.admitted_eq_ok_iff.mp hadmitted).2
    constructor
    · rintro ⟨error, herror, hcode, -⟩
      have hdataError : error.IsDataError := Expr.isDataError_of_run hsound herror
      have hmem := hdataError.code_mem
      rw [hcode] at hmem
      exact absurd hmem (by decide)
    · rintro ⟨error, herror, -⟩
      cases herror

/-- The answer to an admitted submission tells the verdict of the tree, or why there is none. -/
theorem decides_of_admitted (store : Store) (draws : Draws) (hnull : form.isNull = false)
    (hform : form.nesting ≤ 126) (hdata : (Json.object members).nesting ≤ 126)
    (hrequest : request.Submits form (.object members) traced) {expr : Expr}
    (hadmitted : Expr.admitted form.settle = .ok expr) :
    (handle store draws request).response.Decides
      (evaluate expr ⟨(Json.object members).settle⟩) := by
  have hshows := handle_submits store draws hnull hform hdata hrequest
  rw [hadmitted] at hshows
  rw [evaluate_eq_map_run traced]
  change Response.Shows _ (.ofResult _ _ (expr.run traced _)) at hshows
  cases hrun : expr.run traced ⟨(Json.object members).settle⟩ with
  | error e =>
    rw [hrun] at hshows
    exact hshows.tells
  | ok execution =>
    rw [hrun] at hshows
    refine ⟨hshows.status, ?_⟩
    rw [hshows.body]
    rfl

/-- Whether a submitted form is refused as a tree, and with which message, does not depend on the
data, the trace or the state of the service. It is refused exactly if it denotes no tree, or a tree
that has a comparison without a field or is too deep; otherwise every answer tells what deciding the
tree on the data comes to, which is a verdict or the fault of the data. -/
theorem submission_judged_by_form (hnull : form.isNull = false) (hform : form.nesting ≤ 126)
    {members₁ members₂ : List (String × Json)} (hdata₁ : (Json.object members₁).nesting ≤ 126)
    (hdata₂ : (Json.object members₂).nesting ≤ 126) {traced₁ traced₂ : Bool}
    (store₁ store₂ : Store) (draws₁ draws₂ : Draws) {request₁ request₂ : Request}
    (hrequest₁ : request₁.Submits form (.object members₁) traced₁)
    (hrequest₂ : request₂.Submits form (.object members₂) traced₂) :
    (∀ message, (handle store₁ draws₁ request₁).response.Tells "INVALID_NODE" message ↔
      (handle store₂ draws₂ request₂).response.Tells "INVALID_NODE" message) ∧
    ((∃ message, (handle store₁ draws₁ request₁).response.Tells "INVALID_NODE" message) ↔
      Expr.ofJson? form.settle = none ∨ ∃ expr, Expr.ofJson? form.settle = some expr ∧
        ("" ∈ expr.fields ∨ 100 < expr.depth)) ∧
    ∀ expr, Expr.ofJson? form.settle = some expr → ¬ ("" ∈ expr.fields ∨ 100 < expr.depth) →
      (handle store₁ draws₁ request₁).response.Decides
        (evaluate expr ⟨(Json.object members₁).settle⟩) ∧
      ∀ e, evaluate expr ⟨(Json.object members₁).settle⟩ = .error e → e.IsDataError := by
  have hadmitted (expr : Expr) (hdenotes : Expr.ofJson? form.settle = some expr)
      (hsound : ¬ ("" ∈ expr.fields ∨ 100 < expr.depth)) :
      Expr.admitted form.settle = .ok expr := by
    obtain ⟨hfields, hdepth⟩ := not_or.mp hsound
    have hsound := (Expr.isSound_iff_of_ofJson? hdenotes).mpr ⟨hfields, Nat.not_lt.mp hdepth⟩
    exact Expr.admitted_eq_ok_iff.mpr ⟨hdenotes, hsound⟩
  refine ⟨?_, ?_, ?_⟩
  · intro message
    rw [tells_invalidNode_iff store₁ draws₁ hnull hform hdata₁ hrequest₁,
      tells_invalidNode_iff store₂ draws₂ hnull hform hdata₂ hrequest₂]
  · simp only [tells_invalidNode_iff store₁ draws₁ hnull hform hdata₁ hrequest₁]
    constructor
    · rintro ⟨message, e, he, -⟩
      cases hdenotes : Expr.ofJson? form.settle with
      | none => exact .inl rfl
      | some expr =>
        refine .inr ⟨expr, rfl, ?_⟩
        by_contra hsound
        rw [hadmitted expr hdenotes hsound] at he
        cases he
    · intro hdefect
      cases hresult : Expr.admitted form.settle with
      | error e => exact ⟨e.message, e, rfl, rfl⟩
      | ok expr =>
        obtain ⟨hdenotes, hsound⟩ := Expr.admitted_eq_ok_iff.mp hresult
        obtain ⟨hfields, hdepth⟩ := (Expr.isSound_iff_of_ofJson? hdenotes).mp hsound
        rcases hdefect with hnone | ⟨other, hother, hempty | hdeep⟩
        · rw [hdenotes] at hnone
          cases hnone
        · rw [hdenotes] at hother
          cases hother
          exact absurd hempty hfields
        · rw [hdenotes] at hother
          cases hother
          exact absurd hdepth (Nat.not_le.mpr hdeep)
  · intro expr hdenotes hsound
    have hexpr := hadmitted expr hdenotes hsound
    exact ⟨decides_of_admitted store₁ draws₁ hnull hform hdata₁ hrequest₁ hexpr,
      fun e he => isDataError_of_evaluate (Expr.admitted_eq_ok_iff.mp hexpr).2 he⟩

/-- A tree whose left side is a field that one record lacks and whose right side has no field.
Deciding it would blame the record for the one and the tree for the other; the service blames the
tree for both. -/
theorem submission_judged_by_form_hidden_defect :
    ∃ (expr : Expr) (draws : Draws) (request₁ request₂ : Request) (message : String),
      request₁.Submits expr.toJson (.object []) true ∧
      request₂.Submits expr.toJson (.object [("a", .bool true)]) false ∧
      evaluate expr ⟨.object []⟩ = .error (.missingField "a") ∧
      evaluate expr ⟨.object [("a", .bool true)]⟩ = .error (.invalidNode .emptyField) ∧
      (handle .empty draws request₁).response.Tells "INVALID_NODE" message ∧
      (handle .empty draws request₂).response.Tells "INVALID_NODE" message := by
  obtain ⟨expr, hexpr⟩ : ∃ expr : Expr, expr = .logical .and
      (.comparison .equal "a" (.boolean true)) (.comparison .equal "" (.string "x")) := ⟨_, rfl⟩
  have draws : Draws := ⟨"id", "request", .ofSeconds 0, .ofNat 0, 0, .ofNat 0⟩
  have hnull : expr.toJson.isNull = false := expr.isNull_toJson
  have hnesting : expr.toJson.nesting ≤ 126 := by
    rw [hexpr]
    decide +kernel
  have hdenotes : Expr.ofJson? expr.toJson.settle = some expr := by
    rw [hexpr]
    decide +kernel
  have hfield : "" ∈ expr.fields := by
    rw [hexpr]
    decide +kernel
  have hsubmits₁ : (Request.post "/api/rules/evaluate"
      (EvaluatePayload.submission expr.toJson (.object []) true)).Submits expr.toJson
      (.object []) true := by
    refine ⟨_, EvaluatePayload.isSubmission_refl _ _ _, Request.carries_post ?_ ?_⟩
    · decide +kernel
    · rw [hexpr]
      decide +kernel
  have hsubmits₂ : (Request.post "/api/rules/evaluate"
      (.object [("data", .object [("a", .bool true)]), ("ast", expr.toJson)])).Submits expr.toJson
      (.object [("a", .bool true)]) false := by
    refine ⟨_, .inr ⟨rfl, List.Perm.swap _ _ _⟩, Request.carries_post ?_ ?_⟩
    · decide +kernel
    · rw [hexpr]
      decide +kernel
  obtain ⟨halike, hrefused, -⟩ := submission_judged_by_form hnull hnesting (by decide) (by decide)
    .empty .empty draws draws hsubmits₁ hsubmits₂
  obtain ⟨message, hmessage⟩ := hrefused.mpr (.inr ⟨expr, hdenotes, .inl hfield⟩)
  refine ⟨expr, draws, _, _, message, hsubmits₁, hsubmits₂, ?_, ?_, hmessage,
    (halike message).mp hmessage⟩
  · rw [hexpr]
    rfl
  · rw [hexpr]
    rfl

end Service

end PostfixRules
