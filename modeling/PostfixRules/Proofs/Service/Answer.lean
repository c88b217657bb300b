import PostfixRules.Proofs.Service.Request

/-!
# What an answer tells

The body of an answer tells whether the request has succeeded, and under fixed keys the data or the
code and the message of the error. Since every kind of answer has a body of its own form, the reply
that a response shows can be told from its body.
-/

namespace PostfixRules

/-- What a body tells under a key. -/
def Body.member? (key : String) : Body → Option Json
  | .json value => value.member? key
  | .text _ | .empty => none

/-- What the data of a body tell under a key. -/
def Body.datum? (key : String) (body : Body) : Option Json :=
  (body.member? "data").bind (Json.member? key)

/-- Whether a response tells of an error with a code and a message. Only a rule that is not found
has a status of its own. -/
structure Response.Tells (response : Response) (code message : String) : Prop where
  status : response.status = if code = "RULE_NOT_FOUND" then 404 else 400
  success : response.body.member? "success" = some (.bool false)
  code : response.body.member? "code" = some (.string code)
  message : response.body.member? "message" = some (.string message)

/-- The status of an error depends on its code only. -/
theorem RuleError.status_eq (error : RuleError) :
    error.status = if error.code = "RULE_NOT_FOUND" then 404 else 400 := by
  cases error <;> rfl

namespace Response.Shows

variable {response : Response}

/-- The response to a failure tells of the error. -/
theorem tells {error : RuleError} (h : response.Shows (.failure error)) :
    response.Tells error.code error.message where
  status := h.status.trans error.status_eq
  success := by
    rw [h.body]
    rfl
  code := by
    rw [h.body]
    rfl
  message := by
    rw [h.body]
    rfl

/-- A response that tells of an error shows a failure with its code and message. -/
theorem tells_iff {reply : Reply} (h : response.Shows reply) {code message : String} :
    response.Tells code message ↔
      ∃ error, reply = .failure error ∧ error.code = code ∧ error.message = message := by
  constructor
  · intro htells
    have hsuccess := htells.success
    rw [h.body] at hsuccess
    cases reply with
    | failure error =>
      refine ⟨error, rfl, ?_, ?_⟩
      · have hcode := h.tells.code.symm.trans htells.code
        exact Json.string.inj (Option.some.inj hcode)
      · have hmessage := h.tells.message.symm.trans htells.message
        exact Json.string.inj (Option.some.inj hmessage)
    | success status data => cases hsuccess
    | plain status text => cases hsuccess
    | noEndpoint => cases hsuccess
    | otherMethods allowed => cases hsuccess
  · rintro ⟨error, rfl, rfl, rfl⟩
    exact h.tells

/-- A code in a response is that of success or of the failure that the response shows. -/
theorem code_cases {reply : Reply} (h : response.Shows reply) {code : String}
    (hcode : response.body.member? "code" = some (.string code)) :
    code = "SUCCESS" ∨ ∃ error, reply = .failure error ∧ error.code = code := by
  rw [h.body] at hcode
  cases reply with
  | success status data =>
    cases hcode
    exact .inl rfl
  | failure error =>
    cases hcode
    exact .inr ⟨error, rfl, rfl⟩
  | plain status text => cases hcode
  | noEndpoint => cases hcode
  | otherMethods allowed => cases hcode

end Response.Shows

theorem Reply.ofResult_eq_failure_iff {α : Type} {status : Nat} {toJson : α → Json}
    {result : Except RuleError α} {error : RuleError} :
    Reply.ofResult status toJson result = .failure error ↔ result = .error error := by
  cases result <;> simp [ofResult]

/-- A request to which there is no objection is answered with what it runs. -/
theorem Service.evaluateRule_reply {store : Store} {draws : Draws} {payload : EvaluatePayload}
    (hcheck : payload.check = .ok ()) :
    (evaluateRule store draws payload).reply =
      .ofResult 200 (Execution.toJson · draws.evaluationMillis) (runPayload store payload) := by
  simp only [evaluateRule, hcheck]

end PostfixRules
