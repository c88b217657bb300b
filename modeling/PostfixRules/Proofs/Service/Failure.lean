import PostfixRules.Proofs.Service.Run

/-!
# What requests fail with

Every endpoint has its own few codes of failure, and no request fails with any other, whatever has
been asked of the service before. That some codes are missing rests on what every run keeps: rules
in the store have been checked, so that a stored rule fails only for the data.
-/

namespace PostfixRules

/-- Whether a response tells of success, or else of an error with one of these codes. -/
def Response.FailsOnlyWith (response : Response) (codes : List String) : Prop :=
  (∃ status data, response.Shows (.success status data)) ∨
    ∃ code ∈ codes, ∃ message, response.Tells code message

/-- A response fails with the codes of the reply that it shows. -/
theorem Response.Shows.failsOnlyWith {response : Response} {reply : Reply} {codes : List String}
    (h : response.Shows reply) (hreply : reply.FailsOnlyWith codes) :
    response.FailsOnlyWith codes := by
  rcases hreply with ⟨status, data, rfl⟩ | ⟨error, hcode, rfl⟩
  · exact .inl ⟨status, data, h⟩
  · exact .inr ⟨error.code, hcode, error.message, h.tells⟩

/-- The codes that an endpoint has for its failures. -/
def Endpoint.codes : Endpoint → List String
  | .rules => ["VALIDATION_ERROR", "EMPTY_INPUT", "MALFORMED_EXPRESSION", "STACK_UNDERFLOW"]
  | .parse => ["EMPTY_INPUT", "MALFORMED_EXPRESSION", "STACK_UNDERFLOW"]
  | .combine => ["EMPTY_RULE_SET", "RULE_NOT_FOUND", "INVALID_NODE"]
  | .evaluate =>
    ["VALIDATION_ERROR", "RULE_NOT_FOUND", "INVALID_NODE", "MISSING_FIELD", "TYPE_MISMATCH"]
  | .rule _ => ["RULE_NOT_FOUND"]
  | .stats | .health => []

namespace Service

variable {store : Store} {log : List String} {draws : Draws}

/-! ## What operations fail with -/

theorem createRule_failsOnlyWith (store : Store) (draws : Draws) (payload : CreatePayload) :
    (createRule store draws payload).reply.FailsOnlyWith
      ["VALIDATION_ERROR", "EMPTY_INPUT", "MALFORMED_EXPRESSION", "STACK_UNDERFLOW"] := by
  rcases createRule_cases store draws payload with
    ⟨rule, metrics, -, -, -, -, h⟩ | ⟨error, metrics, h, hcode⟩
  · rw [h]
    exact .inl ⟨_, _, rfl⟩
  · rw [h]
    exact .inr ⟨error, hcode, rfl⟩

theorem parseRule_failsOnlyWith (store : Store) (payload : ParsePayload) :
    (parseRule store payload).reply.FailsOnlyWith
      ["EMPTY_INPUT", "MALFORMED_EXPRESSION", "STACK_UNDERFLOW"] :=
  Reply.failsOnlyWith_ofResult fun _ h =>
    RuleError.code_mem_of_isParseError (isParseError_of_parse h)

theorem combineRules_failsOnlyWith (store : Store) (payload : CombinePayload) :
    (combineRules store payload).reply.FailsOnlyWith
      ["EMPTY_RULE_SET", "RULE_NOT_FOUND", "INVALID_NODE"] := by
  refine Reply.failsOnlyWith_ofResult fun e h => ?_
  rcases Store.combine_eq_error h with rfl | ⟨id, -, rfl⟩ | ⟨⟨ordinal, depth, rfl⟩, -⟩
  · exact List.mem_cons_self
  · exact List.mem_cons_of_mem _ List.mem_cons_self
  · exact List.mem_cons_of_mem _ (List.mem_cons_of_mem _ List.mem_cons_self)

/-- What running a payload fails with, where a stored rule is asked for. -/
theorem code_of_runPayload_reference (hstore : store.Reflects log) {payload : EvaluatePayload}
    {id : String} (hast : payload.ast = none) (hid : payload.ruleId = some id) {e : RuleError}
    (h : runPayload store payload = .error e) :
    e.code ∈ ["RULE_NOT_FOUND", "MISSING_FIELD", "TYPE_MISMATCH"] := by
  unfold runPayload at h
  rw [hast, hid] at h
  dsimp only at h
  cases hget : store.get? id with
  | none =>
    rw [hget] at h
    cases h
    exact List.mem_cons_self
  | some compiled =>
    rw [hget] at h
    have hsound := (hstore.isEntry_of_get? hget).sound
    exact List.mem_cons_of_mem _ (CompiledRule.isDataError_of_run hsound h).code_mem

/-- What running a payload fails with, where a tree is submitted. -/
theorem code_of_runPayload_submission {payload : EvaluatePayload} {form : Json}
    (hast : payload.ast = some form) {e : RuleError} (h : runPayload store payload = .error e) :
    e.code ∈ ["INVALID_NODE", "MISSING_FIELD", "TYPE_MISMATCH"] := by
  rw [runPayload_submission store hast] at h
  rcases Outcome.bind_eq_error_iff.mp h with hform | ⟨expr, hform, hrun⟩
  · obtain ⟨defect, rfl⟩ := Expr.exists_defect_of_admitted hform
    exact List.mem_cons_self
  · have hsound := (Expr.admitted_eq_ok_iff.mp hform).2
    exact List.mem_cons_of_mem _ (Expr.isDataError_of_run hsound hrun).code_mem

/-- A payload that is checked and then run fails with the code of an objection or with one of those
of the run. -/
theorem evaluateRule_failsOnlyWith (store : Store) (draws : Draws) {payload : EvaluatePayload}
    {codes : List String} (h : payload.check = .ok () →
      ∀ e, runPayload store payload = .error e → e.code ∈ codes) :
    (evaluateRule store draws payload).reply.FailsOnlyWith ("VALIDATION_ERROR" :: codes) := by
  cases hcheck : payload.check with
  | error e =>
    have hreply : (evaluateRule store draws payload).reply = .failure e := by
      rw [evaluateRule, hcheck]
    refine .inr ⟨e, ?_, hreply⟩
    rw [code_of_rejectIf hcheck]
    exact List.mem_cons_self
  | ok u =>
    rw [evaluateRule_reply hcheck]
    exact Reply.failsOnlyWith_ofResult fun e he => List.mem_cons_of_mem _ (h hcheck e he)

/-- Running a stored rule fails for the request, as it does if there is a tree besides the id,
because the rule is not there, or for the data. -/
theorem evaluateRule_failsOnlyWith_reference (hstore : store.Reflects log) (draws : Draws)
    {payload : EvaluatePayload} {id : String} (hid : payload.ruleId = some id) :
    (evaluateRule store draws payload).reply.FailsOnlyWith
      ["VALIDATION_ERROR", "RULE_NOT_FOUND", "MISSING_FIELD", "TYPE_MISMATCH"] := by
  refine evaluateRule_failsOnlyWith store draws fun hcheck e he => ?_
  cases hast : payload.ast with
  | none => exact code_of_runPayload_reference hstore hast hid he
  | some form =>
    have hrefused : payload.check ≠ .ok () := by
      rw [EvaluatePayload.check, EvaluatePayload.objections, hast, hid]
      exact nofun
    exact absurd hcheck hrefused

/-- Running a submitted tree fails for the request, for the tree, or for the data. -/
theorem evaluateRule_failsOnlyWith_submission (store : Store) (draws : Draws)
    {payload : EvaluatePayload} {form : Json} (hast : payload.ast = some form) :
    (evaluateRule store draws payload).reply.FailsOnlyWith
      ["VALIDATION_ERROR", "INVALID_NODE", "MISSING_FIELD", "TYPE_MISMATCH"] :=
  evaluateRule_failsOnlyWith store draws fun _ _ he => code_of_runPayload_submission hast he

/-- Without anything to run a request is objected to. -/
theorem evaluateRule_failsOnlyWith_neither (store : Store) (draws : Draws)
    {payload : EvaluatePayload} (hast : payload.ast = none) (hid : payload.ruleId = none) :
    (evaluateRule store draws payload).reply.FailsOnlyWith ["VALIDATION_ERROR"] := by
  refine evaluateRule_failsOnlyWith store draws fun hcheck e he => ?_
  rw [EvaluatePayload.check, EvaluatePayload.objections, hast, hid] at hcheck
  cases hcheck

theorem evaluateRule_failsOnlyWith_any (hstore : store.Reflects log) (draws : Draws)
    (payload : EvaluatePayload) :
    (evaluateRule store draws payload).reply.FailsOnlyWith Endpoint.evaluate.codes := by
  cases hast : payload.ast with
  | some form =>
    exact (evaluateRule_failsOnlyWith_submission store draws hast).mono (by decide)
  | none =>
    cases hid : payload.ruleId with
    | some id => exact (evaluateRule_failsOnlyWith_reference hstore draws hid).mono (by decide)
    | none => exact (evaluateRule_failsOnlyWith_neither store draws hast hid).mono (by decide)

theorem showRule_failsOnlyWith (store : Store) (id : String) :
    (showRule store id).reply.FailsOnlyWith ["RULE_NOT_FOUND"] := by
  rw [showRule_eq]
  cases store.get? id with
  | none => exact .inr ⟨.ruleNotFound id, List.mem_cons_self, rfl⟩
  | some compiled => exact .inl ⟨_, _, rfl⟩

theorem deleteRule_failsOnlyWith (store : Store) (id : String) :
    (deleteRule store id).reply.FailsOnlyWith ["RULE_NOT_FOUND"] := by
  rw [deleteRule_eq]
  split
  · exact .inl ⟨_, _, rfl⟩
  · exact .inr ⟨.ruleNotFound id, List.mem_cons_self, rfl⟩

/-! ## What endpoints fail with -/

/-- An endpoint fails with its own codes only, whatever the method and the body. -/
theorem code_mem_of_dispatch (hstore : store.Reflects log) {request : Request}
    {endpoint : Endpoint} {error : RuleError}
    (h : (dispatch store draws request endpoint).reply = .failure error) :
    error.code ∈ endpoint.codes := by
  have hcomes := comesTo_dispatch store draws request endpoint
  generalize dispatch store draws request endpoint = handled at hcomes h
  cases hcomes with
  | told hreply => exact absurd h (hreply error)
  | create => exact (createRule_failsOnlyWith store draws _).code_mem h
  | parse => exact (parseRule_failsOnlyWith store _).code_mem h
  | combine => exact (combineRules_failsOnlyWith store _).code_mem h
  | evaluate => exact (evaluateRule_failsOnlyWith_any hstore draws _).code_mem h
  | find => exact (showRule_failsOnlyWith store _).code_mem h
  | delete => exact (deleteRule_failsOnlyWith store _).code_mem h

/-- A response shows its reply, unless the request asks for the head only. -/
theorem shows_reply (store : Store) (draws : Draws) {request : Request}
    (h : request.method ≠ "HEAD") :
    (handle store draws request).response.Shows (handle store draws request).reply where
  status := by simp only [handle, respond]
  body := by simp only [handle, respond, if_neg h]

/-- A code in a response is that of success, or that of an error of the endpoint asked. -/
theorem code_cases_of_handle (hstore : store.Reflects log) {request : Request} {code : String}
    (h : (handle store draws request).response.body.member? "code" = some (.string code)) :
    code = "SUCCESS" ∨ ∃ endpoint : Endpoint, code ∈ endpoint.codes ∧
      ∃ message, (handle store draws request).response.Tells code message := by
  by_cases hhead : request.method = "HEAD"
  · have hbody : (handle store draws request).response.body = .empty := by
      simp only [handle, respond, if_pos hhead]
    rw [hbody] at h
    cases h
  · have hshows := shows_reply store draws hhead
    rcases hshows.code_cases h with hsuccess | ⟨error, hreply, rfl⟩
    · exact .inl hsuccess
    · rw [hreply] at hshows
      unfold handle at hreply
      dsimp only at hreply
      cases hendpoint : Endpoint.ofPath? (Endpoint.pathOf request.target) with
      | none =>
        rw [hendpoint] at hreply
        cases hreply
      | some endpoint =>
        rw [hendpoint] at hreply
        exact .inr ⟨endpoint, code_mem_of_dispatch hstore hreply, error.message, hshows.tells⟩

theorem not_mem_codes (endpoint : Endpoint) : "JSON_ERROR" ∉ endpoint.codes := by
  cases endpoint with
  | rule segment => exact (by decide : "JSON_ERROR" ∉ ["RULE_NOT_FOUND"])
  | rules | parse | combine | evaluate | stats | health => decide

/-- What a service with a store may answer to a request, as far as failures go. Once the body or the
id of a request is decoded, the answer is a success or tells one of the codes listed. -/
structure FailsWithOwnCodes (store : Store) (request : Request) (response : Response) : Prop where
  create : ∀ payload, request.Asks "POST" "/api/rules" →
    decodeRequest CreatePayload.decode request = .ok payload → response.FailsOnlyWith
      ["VALIDATION_ERROR", "EMPTY_INPUT", "MALFORMED_EXPRESSION", "STACK_UNDERFLOW"]
  parse : ∀ payload, request.Asks "POST" "/api/rules/parse" →
    decodeRequest ParsePayload.decode request = .ok payload → response.FailsOnlyWith
      ["EMPTY_INPUT", "MALFORMED_EXPRESSION", "STACK_UNDERFLOW"]
  combine : ∀ payload, request.Asks "POST" "/api/rules/combine" →
    decodeRequest CombinePayload.decode request = .ok payload → response.FailsOnlyWith
      ["EMPTY_RULE_SET", "RULE_NOT_FOUND", "INVALID_NODE"]
  /-- A combination is refused as a tree for being too deep and for nothing else. -/
  tooDeep : ∀ payload, request.Asks "POST" "/api/rules/combine" →
    decodeRequest CombinePayload.decode request = .ok payload →
    ∀ message, response.Tells "INVALID_NODE" message → ∃ first rest,
      payload.ruleIds.mapM store.expr = .ok (first :: rest) ∧
      100 < (rest.foldl (.logical .and) first).depth
  reference : ∀ payload id, request.Asks "POST" "/api/rules/evaluate" →
    decodeRequest EvaluatePayload.decode request = .ok payload → payload.ruleId = some id →
    response.FailsOnlyWith
      ["VALIDATION_ERROR", "RULE_NOT_FOUND", "MISSING_FIELD", "TYPE_MISMATCH"]
  submission : ∀ payload form, request.Asks "POST" "/api/rules/evaluate" →
    decodeRequest EvaluatePayload.decode request = .ok payload → payload.ast = some form →
    response.FailsOnlyWith ["VALIDATION_ERROR", "INVALID_NODE", "MISSING_FIELD", "TYPE_MISMATCH"]
  get : ∀ id, request.Names "GET" id → response.FailsOnlyWith ["RULE_NOT_FOUND"]
  delete : ∀ id, request.Names "DELETE" id → response.FailsOnlyWith ["RULE_NOT_FOUND"]
  /-- Whatever was asked, a code of failure is not that of a faulty document, and it comes with its
  own status. -/
  code : ∀ code, response.body.member? "code" = some (.string code) →
    code ≠ "JSON_ERROR" ∧ (code = "SUCCESS" ∨ ∃ message, response.Tells code message)

/-- A refusal as a tree comes from trees that are too deep together. -/
theorem exists_of_tells_invalidNode {response : Response} {payload : CombinePayload}
    {message : String} (hshows : response.Shows (combineRules store payload).reply)
    (htells : response.Tells "INVALID_NODE" message) : ∃ first rest,
      payload.ruleIds.mapM store.expr = .ok (first :: rest) ∧
      100 < (rest.foldl (.logical .and) first).depth := by
  obtain ⟨error, hreply, hcode, -⟩ := hshows.tells_iff.mp htells
  rcases Store.combine_eq_error (Reply.ofResult_eq_failure_iff.mp hreply) with
    rfl | ⟨id, -, rfl⟩ | ⟨-, hdeep⟩
  · exact absurd hcode (by decide)
  · have hne : (RuleError.ruleNotFound id).code ≠ "INVALID_NODE" := by
      rw [RuleError.code]
      decide
    exact absurd hcode hne
  · exact hdeep

/-- After every run on a fresh service, whatever is asked next, each endpoint fails with its own
codes only. -/
theorem requests_fail_with_own_codes (exchanges : List Exchange) (draws : Draws)
    (request : Request) :
    FailsWithOwnCodes (run .empty exchanges) request
      (handle (run .empty exchanges) draws request).response := by
  obtain ⟨log, hstore⟩ := exists_reflects_run exchanges
  generalize run .empty exchanges = store at hstore ⊢
  constructor
  case create =>
    intro payload hasks hdecode
    have hshows := Request.Asks.shows_of_decode store draws (dispatch_create hasks.method) hasks
      trivial hdecode
    exact hshows.response.failsOnlyWith (createRule_failsOnlyWith store draws payload)
  case parse =>
    intro payload hasks hdecode
    have hshows := Request.Asks.shows_of_decode store draws (dispatch_parse hasks.method) hasks
      trivial hdecode
    exact hshows.response.failsOnlyWith (parseRule_failsOnlyWith store payload)
  case combine =>
    intro payload hasks hdecode
    have hshows := Request.Asks.shows_of_decode store draws (dispatch_combine hasks.method) hasks
      trivial hdecode
    exact hshows.response.failsOnlyWith (combineRules_failsOnlyWith store payload)
  case tooDeep =>
    intro payload hasks hdecode message htells
    have hshows := Request.Asks.shows_of_decode store draws (dispatch_combine hasks.method) hasks
      trivial hdecode
    exact exists_of_tells_invalidNode hshows.response htells
  case reference =>
    intro payload id hasks hdecode hid
    have hshows := Request.Asks.shows_of_decode store draws (dispatch_evaluate hasks.method) hasks
      trivial hdecode
    exact hshows.response.failsOnlyWith (evaluateRule_failsOnlyWith_reference hstore draws hid)
  case submission =>
    intro payload form hasks hdecode hast
    have hshows := Request.Asks.shows_of_decode store draws (dispatch_evaluate hasks.method) hasks
      trivial hdecode
    exact hshows.response.failsOnlyWith (evaluateRule_failsOnlyWith_submission store draws hast)
  case get =>
    intro id hnames
    exact (hnames.shows_show store draws).response.failsOnlyWith (showRule_failsOnlyWith store id)
  case delete =>
    intro id hnames
    exact (hnames.shows_delete store draws).response.failsOnlyWith
      (deleteRule_failsOnlyWith store id)
  case code =>
    intro code hcode
    rcases code_cases_of_handle hstore hcode with rfl | ⟨endpoint, hmem, htells⟩
    · exact ⟨by decide, .inl rfl⟩
    · refine ⟨?_, .inr htells⟩
      rintro rfl
      exact not_mem_codes endpoint hmem

end Service

end PostfixRules
