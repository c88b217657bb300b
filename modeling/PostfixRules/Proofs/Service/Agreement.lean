import PostfixRules.Proofs.Expr.Codec
import PostfixRules.Proofs.Service.Operation
import PostfixRules.Proofs.Store

/-!
# Submitted trees and stored rules

The tree that the service tells for a rule text may be sent back to be run, and the rule made of the
same text may be run by its id. Both ways run one and the same tree on the same record: the tree
survives its way through JSON, and the check before either run accepts it. The answers therefore
differ only in the id of the rule and in the time that was measured.
-/

namespace PostfixRules

/-! ## What an answer tells -/

/-- The answer for a submitted tree and the answer for the rule stored under an id are alike: they
differ at most in the id, which only the second one has, and in the time. -/
structure AnswersAlike (id : String) (submitted stored : Response) : Prop where
  status : submitted.status = stored.status
  envelope : ∀ key, key ≠ "data" → submitted.body.member? key = stored.body.member? key
  data : ∀ key, key ≠ "ruleId" → key ≠ "evaluationTimeMs" →
    submitted.body.datum? key = stored.body.datum? key
  withoutId : submitted.body.datum? "ruleId" = none
  withId : stored.status = 200 → stored.body.datum? "ruleId" = some (.string id)

theorem Reply.status_success (status : Nat) (data : Option Json) :
    (Reply.success status data).status = status := rfl

/-- What running a tree came to, as the answer of a rule or of no rule. -/
def Execution.reply (ruleId : Option String) (millis : Nat) (result : Except RuleError Findings) :
    Reply :=
  .ofResult 200 (Execution.toJson · millis) (result.map (⟨ruleId, ·⟩))

theorem Execution.reply_error (ruleId : Option String) (millis : Nat) (e : RuleError) :
    reply ruleId millis (.error e) = .failure e := rfl

theorem Execution.reply_ok (ruleId : Option String) (millis : Nat) (findings : Findings) :
    reply ruleId millis (.ok findings) =
      .success 200 (some (toJson ⟨ruleId, findings⟩ millis)) := rfl

/-- Only the id and the time depend on which rule was run and when. -/
theorem Execution.lookup_toJson (ruleId : Option String) (findings : Findings) (millis : Nat)
    {key : String} (hid : key ≠ "ruleId") (htime : key ≠ "evaluationTimeMs") :
    (Execution.toJson ⟨ruleId, findings⟩ millis).member? key =
      (Execution.toJson ⟨none, findings⟩ 0).member? key := by
  have hid' : (key == "ruleId") = false := beq_eq_false_iff_ne.mpr hid
  have htime' : (key == "evaluationTimeMs") = false := beq_eq_false_iff_ne.mpr htime
  cases ruleId with
  | none =>
    simp only [toJson, Json.member?, List.lookup_append, List.lookup_cons, List.lookup_nil, htime']
  | some id =>
    simp only [toJson, Json.member?, List.lookup_append, List.lookup_cons, List.lookup_nil, hid',
      htime', Option.map_some, Option.toList_some, Option.map_none, Option.toList_none]

/-- Two answers about the same findings are alike. -/
theorem answersAlike_of_reply {id : String} {millis millis' : Nat}
    {result : Except RuleError Findings} {submitted stored : Response}
    (hsubmitted : submitted.Shows (Execution.reply none millis result))
    (hstored : stored.Shows (Execution.reply (some id) millis' result)) :
    AnswersAlike id submitted stored := by
  obtain ⟨hstatus, hbody⟩ := hsubmitted
  obtain ⟨hstatus', hbody'⟩ := hstored
  cases result with
  | error e =>
    rw [Execution.reply_error] at hstatus hbody hstatus' hbody'
    have hrefused : (Reply.failure e).status ≠ 200 := by
      cases e <;> simp [Reply.status, RuleError.status]
    refine ⟨by rw [hstatus, hstatus'], fun key _ => by rw [hbody, hbody'],
      fun key _ _ => by rw [hbody, hbody'], ?_, fun h => absurd (hstatus'.symm.trans h) hrefused⟩
    rw [hbody]
    rfl
  | ok findings =>
    rw [Execution.reply_ok] at hstatus hbody hstatus' hbody'
    have hdatum (key : String) : submitted.body.datum? key =
        (Execution.toJson ⟨none, findings⟩ millis).member? key := by
      rw [hbody]
      rfl
    have hdatum' (key : String) : stored.body.datum? key =
        (Execution.toJson ⟨some id, findings⟩ millis').member? key := by
      rw [hbody']
      rfl
    rw [Reply.status_success] at hstatus hstatus'
    refine ⟨hstatus.trans hstatus'.symm, ?_, ?_, ?_, ?_⟩
    · intro key hkey
      have hkey' : (key == "data") = false := beq_eq_false_iff_ne.mpr hkey
      rw [hbody, hbody']
      simp only [Reply.body, Body.member?, Json.member?, List.lookup_append, Option.map_some,
        Option.toList_some, List.lookup_cons, hkey', List.lookup_nil]
    · intro key hid htime
      rw [hdatum, hdatum', Execution.lookup_toJson none findings millis hid htime,
        Execution.lookup_toJson (some id) findings millis' hid htime]
    · rw [hdatum]
      cases ht : findings.trace.isEmpty <;> simp [Execution.toJson, Json.member?, ht]
    · intro _
      rw [hdatum']
      rfl

/-! ## What the service does -/

/-- The codes of answers that tell what the rule says about the data. -/
def verdictCodes : List String :=
  ["SUCCESS", "MISSING_FIELD", "TYPE_MISMATCH"]

/-- The answer about a run that fails at most for the data has one of these codes. -/
theorem exists_verdictCode {ruleId : Option String} {millis : Nat}
    {result : Except RuleError Findings} (h : ∀ e, result = .error e → e.IsDataError) :
    ∃ code ∈ verdictCodes,
      (Execution.reply ruleId millis result).body.member? "code" = some (.string code) := by
  cases result with
  | ok findings => exact ⟨"SUCCESS", by decide, rfl⟩
  | error e => exact ⟨e.code, List.mem_cons_of_mem _ (h e rfl).code_mem, rfl⟩

namespace Service

/-- A submitted form of a sound tree is run as the tree. -/
theorem evaluateRule_submission (store : Store) (draws : Draws) {expr : Expr}
    (hsound : expr.IsSound) (members : List (String × Json)) (traced : Bool) :
    (evaluateRule store draws
      ⟨some expr.toJson, none, (Json.object members).settle, traced⟩).reply =
        Execution.reply none draws.evaluationMillis
          (execute traced expr ⟨(Json.object members).settle⟩) := by
  have hrun : runPayload store ⟨some expr.toJson, none, (Json.object members).settle, traced⟩ =
      (execute traced expr ⟨(Json.object members).settle⟩).map (⟨none, ·⟩) := by
    simp only [runPayload, Expr.decode_toJson hsound.leaves.hasFiniteNumbers,
      validate_eq_ok_iff.mpr hsound, Except.bind, Expr.run]
  rw [evaluateRule_reply rfl, hrun, Execution.reply]

/-- A reference to a stored rule is run as the tree of the rule. -/
theorem evaluateRule_reference (store : Store) (draws : Draws) {id : String}
    {compiled : CompiledRule} (hget : store.get? id = some compiled)
    (members : List (String × Json)) (traced : Bool) :
    (evaluateRule store draws ⟨none, some id, (Json.object members).settle, traced⟩).reply =
      Execution.reply (some compiled.rule.id) draws.evaluationMillis
        (execute traced compiled.rule.expr ⟨(Json.object members).settle⟩) := by
  have hrun : runPayload store ⟨none, some id, (Json.object members).settle, traced⟩ =
      (execute traced compiled.rule.expr ⟨(Json.object members).settle⟩).map
        (⟨some compiled.rule.id, ·⟩) := by
    simp only [runPayload, hget, CompiledRule.run]
  rw [evaluateRule_reply rfl, hrun, Execution.reply]

/-- The form of a canonical tree fits into the body of a request, and running it is answered. -/
theorem handle_submission (store : Store) (draws : Draws) {expr : Expr} (h : expr.IsCanonical)
    {members : List (String × Json)} (hdata : (Json.object members).nesting ≤ 126) {traced : Bool}
    {request : Request} (hrequest : request.Carries "/api/rules/evaluate"
      (EvaluatePayload.submission expr.toJson (.object members) traced)) :
    (handle store draws request).response.Shows
      (Execution.reply none draws.evaluationMillis
        (execute traced expr ⟨(Json.object members).settle⟩)) := by
  have hast : expr.toJson.nesting ≤ 126 := by
    have hdepth := h.depth_le
    rw [expr.nesting_toJson]
    omega
  have hdecode := EvaluatePayload.decode_of_isSubmission hrequest.tokens
    (EvaluatePayload.isSubmission_refl _ _ _) hast expr.isNull_toJson hdata
  rw [expr.settle_toJson] at hdecode
  rw [← evaluateRule_submission store draws h.isSound]
  exact (handle_evaluate store draws hrequest hdecode).response

/-- Running a stored rule is answered. -/
theorem handle_reference (store : Store) (draws : Draws) {id : String} {compiled : CompiledRule}
    (hget : store.get? id = some compiled) {members : List (String × Json)}
    (hdata : (Json.object members).nesting ≤ 126) {traced : Bool} {request : Request}
    (hrequest : request.Carries "/api/rules/evaluate"
      (EvaluatePayload.reference id (.object members) traced)) :
    (handle store draws request).response.Shows
      (Execution.reply (some compiled.rule.id) draws.evaluationMillis
        (execute traced compiled.rule.expr ⟨(Json.object members).settle⟩)) := by
  rw [← evaluateRule_reference store draws hget]
  exact (handle_evaluate store draws hrequest
    (EvaluatePayload.decode_reference hrequest.tokens hdata)).response

/-- Rule text that is accepted is told as its tree. -/
theorem handle_told (store : Store) (draws : Draws) {payload : ParsePayload} {expr : Expr}
    (hparse : parse payload.ruleText = .ok expr) {request : Request}
    (hrequest : request.Carries "/api/rules/parse" payload.toJson) :
    (handle store draws request).response.Shows (.success 200 (some expr.toJson)) := by
  have hreply : (parseRule store payload).reply = .success 200 (some expr.toJson) := by
    simp only [parseRule, hparse, Reply.ofResult]
  rw [← hreply]
  exact (handle_parse store draws hrequest).response

/-- A rule of accepted text is created and stored. -/
theorem handle_created (store : Store) (draws : Draws) {payload : CreatePayload} {expr : Expr}
    (hparse : parse payload.ruleText = .ok expr) (hcheck : payload.check = .ok ())
    (hid : draws.ruleId ≠ "") {request : Request}
    (hrequest : request.Carries "/api/rules" payload.toJson) :
    ∃ compiled, (handle store draws request).response.Shows
        (.success 201 (some compiled.rule.toJson)) ∧
      (handle store draws request).store.get? draws.ruleId = some compiled ∧
      compiled.rule.id = draws.ruleId ∧ compiled.rule.expr = expr := by
  obtain ⟨rule, hrule⟩ : ∃ rule : Rule,
      rule = .create draws.ruleId draws.now payload.name payload.description expr := ⟨_, rfl⟩
  have hid' : rule.id = draws.ruleId := congrArg Rule.id hrule
  have hcreate := store.create_of_parse_ok hid draws.now payload.name payload.description hparse
  rw [← hrule] at hcreate
  have hshows := handle_create store draws hrequest
  rw [createRule_of_check store draws hcheck hcreate] at hshows
  refine ⟨store.compiledNext rule, hshows.response, ?_, hid', congrArg Rule.expr hrule⟩
  rw [hshows.store, ← hid']
  exact store.get?_afterLoad rule

/-- The tree told for a rule text and the rule created from it, each run on the same data, get
answers that are alike, and neither is ever refused: only the data can be at fault. -/
theorem submitted_alike_stored {payload : CreatePayload} {expr : Expr}
    (hparse : parse payload.ruleText = .ok expr) (hcheck : payload.check = .ok ())
    {members : List (String × Json)} (hdata : (Json.object members).nesting ≤ 126) {traced : Bool}
    (telling creating running holding : Store) (d₁ d₂ d₃ d₄ : Draws) (hid : d₂.ruleId ≠ "")
    {asking ordering submitting referring : Request}
    (hasking : asking.Carries "/api/rules/parse" (ParsePayload.toJson ⟨payload.ruleText⟩))
    (hordering : ordering.Carries "/api/rules" payload.toJson)
    (hsubmitting : submitting.Carries "/api/rules/evaluate"
      (EvaluatePayload.submission expr.toJson (.object members) traced))
    (hreferring : referring.Carries "/api/rules/evaluate"
      (EvaluatePayload.reference d₂.ruleId (.object members) traced))
    (hholding : holding.get? d₂.ruleId =
      (handle creating d₂ ordering).store.get? d₂.ruleId) :
    (handle telling d₁ asking).response.status = 200 ∧
      (handle telling d₁ asking).response.body.member? "data" = some expr.toJson ∧
      (handle creating d₂ ordering).response.status = 201 ∧
      (handle creating d₂ ordering).response.body.datum? "id" = some (.string d₂.ruleId) ∧
      AnswersAlike d₂.ruleId (handle running d₃ submitting).response
        (handle holding d₄ referring).response ∧
      ∃ code ∈ verdictCodes,
        (handle running d₃ submitting).response.body.member? "code" = some (.string code) := by
  have hcanonical := isCanonical_of_parse hparse
  have htold := @handle_told telling d₁ ⟨payload.ruleText⟩ expr hparse asking hasking
  obtain ⟨compiled, hcreated, hget, hcompiled, rfl⟩ :=
    handle_created creating d₂ hparse hcheck hid hordering
  rw [hget] at hholding
  have hsubmitted := handle_submission running d₃ hcanonical hdata hsubmitting
  have hstored := handle_reference holding d₄ hholding hdata hreferring
  rw [hcompiled] at hstored
  refine ⟨htold.status, ?_, hcreated.status, ?_, answersAlike_of_reply hsubmitted hstored, ?_⟩
  · rw [htold.body]
    rfl
  · rw [hcreated.body, ← hcompiled]
    rfl
  · rw [hsubmitted.body]
    exact exists_verdictCode fun e he => isDataError_of_execute hcanonical.isSound he

/-- A rule submitted to one empty store and created in another, run on a record with an integer. -/
theorem submitted_alike_stored_adult :
    ∃ (draws : Draws) (expr : Expr) (submitting referring ordering : Request),
      draws.ruleId = "adult" ∧ parse "age 18 >=" = .ok expr ∧
      ordering = .post "/api/rules" (CreatePayload.toJson ⟨"Adults", "", "age 18 >="⟩) ∧
      submitting = .post "/api/rules/evaluate"
        (EvaluatePayload.submission expr.toJson (.object [("age", .ofInt 30)]) true) ∧
      referring = .post "/api/rules/evaluate"
        (EvaluatePayload.reference "adult" (.object [("age", .ofInt 30)]) true) ∧
      (handle .empty draws ordering).response.status = 201 ∧
      AnswersAlike "adult" (handle .empty draws submitting).response
        (handle (handle .empty draws ordering).store draws referring).response := by
  have hparse : parse (CreatePayload.mk "Adults" "" "age 18 >=").ruleText =
      .ok (.comparison .atLeast "age" (.number (Double.ofInt 18))) := by decide +kernel
  have hcheck : (CreatePayload.mk "Adults" "" "age 18 >=").check = .ok () := by decide +kernel
  have hdata : (Json.object [("age", .ofInt 30)]).nesting ≤ 126 := by decide +kernel
  obtain ⟨draws, hdraws⟩ : ∃ draws : Draws, draws.ruleId = "adult" :=
    ⟨⟨"adult", "request", .ofSeconds 0, .ofNat 0, 0, .ofNat 0⟩, rfl⟩
  have hid : draws.ruleId ≠ "" := by
    rw [hdraws]
    decide
  have hasking : (Request.post "/api/rules/parse" (ParsePayload.toJson ⟨"age 18 >="⟩)).Carries
      "/api/rules/parse" (ParsePayload.toJson ⟨"age 18 >="⟩) :=
    Request.carries_post (by decide +kernel) (by decide +kernel)
  have hordering : (Request.post "/api/rules"
      (CreatePayload.toJson ⟨"Adults", "", "age 18 >="⟩)).Carries "/api/rules" _ :=
    Request.carries_post (by decide +kernel) (by decide +kernel)
  have hsubmitting : (Request.post "/api/rules/evaluate" (EvaluatePayload.submission
      (Expr.comparison .atLeast "age" (.number (Double.ofInt 18))).toJson
      (.object [("age", .ofInt 30)]) true)).Carries "/api/rules/evaluate" _ :=
    Request.carries_post (by decide +kernel) (by decide +kernel)
  have hreferring : (Request.post "/api/rules/evaluate" (EvaluatePayload.reference "adult"
      (.object [("age", .ofInt 30)]) true)).Carries "/api/rules/evaluate" _ :=
    Request.carries_post (by decide +kernel) (by decide +kernel)
  rw [← hdraws] at hreferring
  have halike := submitted_alike_stored hparse hcheck hdata .empty .empty .empty _ draws draws draws
    draws hid hasking hordering hsubmitting hreferring rfl
  rw [hdraws] at halike
  exact ⟨draws, _, _, _, _, hdraws, hparse, rfl, rfl, rfl, halike.2.2.1, halike.2.2.2.2.1⟩

end Service

end PostfixRules
