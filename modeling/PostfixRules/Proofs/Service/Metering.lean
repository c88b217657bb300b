import PostfixRules.Proofs.Service.Dispatch
import PostfixRules.Proofs.Service.Operation
import PostfixRules.Proofs.Service.Route

/-!
# Metrics agree with answers

Four operations are counted: creating a rule, reading rule text, combining rules and running one.
A request comes to such an operation once its body is decoded and there is no objection to it, and
then the metrics of the operation tell how the answer ends. No other request, answered or refused,
leaves metrics of an operation. Every request leaves the same two metrics at the end, which tell its
method, its path and the status of its answer.
-/

namespace PostfixRules

/-! ## Labels -/

/-- The labels of success are no codes of errors. -/
theorem RuleError.code_not_mem (e : RuleError) : e.code ∉ ["ok", "matched", "not_matched"] := by
  cases e <;> simp [code]

namespace Response

/-- Whether a label tells how a response ends: with `ok` it is a success, and with any other label a
failure with that label for its code. -/
structure EndsAs (response : Response) (label : String) : Prop where
  ok_iff : label = "ok" ↔ response.body.member? "success" = some (.bool true)
  code : label ≠ "ok" → response.body.member? "success" = some (.bool false) ∧
    response.body.member? "code" = some (.string label)

/-- Whether a label tells how a response that is to tell a verdict ends: each verdict has a label,
and with any other label it is a failure with that label for its code. -/
structure JudgesAs (response : Response) (label : String) : Prop where
  success_iff : label = "matched" ∨ label = "not_matched" ↔
    response.body.member? "success" = some (.bool true)
  matched_iff : label = "matched" ↔ response.body.datum? "result" = some (.bool true)
  not_matched_iff : label = "not_matched" ↔ response.body.datum? "result" = some (.bool false)
  code : label ≠ "matched" → label ≠ "not_matched" →
    response.body.member? "success" = some (.bool false) ∧
    response.body.member? "code" = some (.string label)

namespace Shows

variable {response : Response}

/-- A failure is one with its own code, which is the label of no success. -/
theorem label_of_failure {e : RuleError} (h : response.Shows (.failure e)) :
    response.body.member? "success" ≠ some (.bool true) ∧
      e.code ≠ "ok" ∧ e.code ≠ "matched" ∧ e.code ≠ "not_matched" := by
  have hcode := e.code_not_mem
  simp only [List.mem_cons, List.not_mem_nil, or_false, not_or] at hcode
  rw [h.tells.success]
  exact ⟨by simp, hcode⟩

/-- The answer of an operation ends as its label tells. -/
theorem endsAs {α : Type} {status : Nat} {toJson : α → Json} {result : Except RuleError α}
    (h : response.Shows (.ofResult status toJson result)) :
    response.EndsAs (Service.outcomeLabel result) := by
  cases result with
  | ok value =>
    have hsuccess : response.body.member? "success" = some (.bool true) := by
      rw [h.body]
      rfl
    exact ⟨iff_of_true rfl hsuccess, fun hne => absurd rfl hne⟩
  | error e =>
    have hfailure : response.Shows (.failure e) := h
    obtain ⟨hsuccess, hok, -, -⟩ := hfailure.label_of_failure
    exact ⟨iff_of_false hok hsuccess, fun _ => ⟨hfailure.tells.success, hfailure.tells.code⟩⟩

/-- The answer to a request to run something ends as its label tells. -/
theorem judgesAs {status millis : Nat} {result : Except RuleError Execution}
    (h : response.Shows (.ofResult status (Execution.toJson · millis) result)) :
    response.JudgesAs (Service.verdictLabel result) := by
  cases result with
  | ok execution =>
    have hsuccess : response.body.member? "success" = some (.bool true) := by
      rw [h.body]
      rfl
    have hresult : response.body.datum? "result" = some (.bool execution.findings.matched) := by
      rw [h.body]
      rfl
    rw [Service.verdictLabel]
    constructor
    case success_iff => exact iff_of_true (by cases execution.findings.matched <;> simp) hsuccess
    case matched_iff =>
      rw [hresult]
      cases execution.findings.matched <;> simp
    case not_matched_iff =>
      rw [hresult]
      cases execution.findings.matched <;> simp
    case code =>
      intro hmatched hnot
      cases hverdict : execution.findings.matched with
      | true => exact absurd (if_pos hverdict) hmatched
      | false => exact absurd (if_neg (by simp [hverdict])) hnot
  | error e =>
    have hfailure : response.Shows (.failure e) := h
    obtain ⟨hsuccess, -, hmatched, hnot⟩ := hfailure.label_of_failure
    have hresult : response.body.datum? "result" = none := by
      rw [hfailure.body]
      rfl
    constructor
    case success_iff => exact iff_of_false (not_or.mpr ⟨hmatched, hnot⟩) hsuccess
    case matched_iff => exact iff_of_false hmatched (by simp [hresult])
    case not_matched_iff => exact iff_of_false hnot (by simp [hresult])
    case code => exact fun _ _ => ⟨hfailure.tells.success, hfailure.tells.code⟩

end Shows

end Response

/-! ## Counted operations -/

/-- Whether a path is the part of the target of a request before its query or fragment. -/
def Request.HasPath (request : Request) (path : String) : Prop :=
  ∃ rest, request.target = path ++ rest ∧ (∀ c ∈ path.toList, c ≠ '?' ∧ c ≠ '#') ∧
    ∀ c ∈ rest.toList.head?, c = '?' ∨ c = '#'

theorem Request.hasPath_pathOf (request : Request) :
    request.HasPath (Endpoint.pathOf request.target) := by
  refine ⟨String.ofList (request.target.toList.dropWhile fun c => c != '?' && c != '#'), ?_, ?_, ?_⟩
  · rw [Endpoint.pathOf, ← String.ofList_append, List.takeWhile_append_dropWhile,
      String.ofList_toList]
  · intro c hc
    rw [Endpoint.pathOf, String.toList_ofList] at hc
    simpa using List.mem_takeWhile_imp hc
  · intro c hc
    rw [String.toList_ofList, Option.mem_def] at hc
    have hstop := List.head?_dropWhile_not (fun c => c != '?' && c != '#') request.target.toList
    rw [hc] at hstop
    simpa [or_iff_not_imp_left] using hstop

namespace Service

/-- An operation that is counted, with what it is carried out on. -/
inductive Counted where
  | create (payload : CreatePayload)
  | parse (payload : ParsePayload)
  | combine (payload : CombinePayload)
  | evaluate (payload : EvaluatePayload)

namespace Counted

/-- The endpoint of an operation. -/
def endpoint : Counted → Endpoint
  | .create _ => .rules
  | .parse _ => .parse
  | .combine _ => .combine
  | .evaluate _ => .evaluate

/-- Whether the body of a request is decoded as what an operation is carried out on, and there is no
objection to it. -/
def IsCarried (request : Request) : Counted → Prop
  | .create payload =>
    decodeRequest CreatePayload.decode request = .ok payload ∧ payload.check = .ok ()
  | .parse payload => decodeRequest ParsePayload.decode request = .ok payload
  | .combine payload => decodeRequest CombinePayload.decode request = .ok payload
  | .evaluate payload =>
    decodeRequest EvaluatePayload.decode request = .ok payload ∧ payload.check = .ok ()

/-- Whether a request comes to an operation. -/
structure IsReached (request : Request) (operation : Counted) : Prop where
  asks : request.Asks "POST" operation.endpoint.path
  carried : operation.IsCarried request

/-- What an operation does. -/
def handled (store : Store) (draws : Draws) : Counted → Handled
  | .create payload => createRule store draws payload
  | .parse payload => parseRule store payload
  | .combine payload => combineRules store payload
  | .evaluate payload => evaluateRule store draws payload

/-- Whether metrics are those of an operation that is answered with a response, and that takes so
many seconds if it runs something. -/
def Leaves (response : Response) (seconds : Double) (metrics : List Metric) : Counted → Prop
  | .create _ | .parse _ => ∃ label, response.EndsAs label ∧
    metrics = [⟨"rule_parses_total", [("status", label)], .increment⟩]
  | .combine payload => ∃ label, response.EndsAs label ∧
    metrics = [⟨"rule_combines_total", [("status", label)], .increment⟩,
      ⟨"rule_combine_size", [], .observed (Double.ofNat payload.ruleIds.length)⟩]
  | .evaluate _ => ∃ label, response.JudgesAs label ∧
    metrics = [⟨"rule_evaluations_total", [("outcome", label)], .increment⟩,
      ⟨"rule_evaluation_duration_seconds", [], .observed seconds⟩]

variable {store : Store} {draws : Draws} {request : Request} {operation : Counted}

theorem isNamed_endpoint (operation : Counted) : operation.endpoint.IsNamed := by
  cases operation <;> trivial

/-- The path of a request that comes to an operation names its endpoint. -/
theorem IsReached.ofPath?_eq (h : operation.IsReached request) :
    Endpoint.ofPath? (Endpoint.pathOf request.target) = some operation.endpoint :=
  h.asks.endpoint operation.isNamed_endpoint

/-- A request that comes to an operation has it carried out. -/
theorem IsReached.dispatch_eq (h : operation.IsReached request) (store : Store) (draws : Draws) :
    dispatch store draws request operation.endpoint = operation.handled store draws := by
  obtain ⟨⟨hpost, -⟩, hcarried⟩ := h
  cases operation with
  | create payload => exact (dispatch_create hpost).trans (withPayload_of_ok hcarried.1)
  | parse payload => exact (dispatch_parse hpost).trans (withPayload_of_ok hcarried)
  | combine payload => exact (dispatch_combine hpost).trans (withPayload_of_ok hcarried)
  | evaluate payload => exact (dispatch_evaluate hpost).trans (withPayload_of_ok hcarried.1)

/-- An operation to which there is no objection leaves its metrics, under the label of its answer.
-/
theorem IsCarried.leaves (h : operation.IsCarried request) {response : Response}
    (hshows : response.Shows (operation.handled store draws).reply) :
    operation.Leaves response draws.evaluationSeconds (operation.handled store draws).metrics := by
  cases operation with
  | create payload =>
    obtain ⟨-, hcheck⟩ := h
    rw [handled, createRule_of_check store draws hcheck rfl] at hshows ⊢
    exact ⟨_, hshows.endsAs, rfl⟩
  | parse payload => exact ⟨_, hshows.endsAs, rfl⟩
  | combine payload => exact ⟨_, hshows.endsAs, rfl⟩
  | evaluate payload =>
    obtain ⟨-, hcheck⟩ := h
    rw [handled, evaluateRule, hcheck] at hshows ⊢
    exact ⟨_, hshows.judgesAs, rfl⟩

end Counted

/-! ## What requests leave -/

/-- A request for the path of an endpoint leaves what the operation of the endpoint leaves, and then
the two metrics of the request. -/
theorem metrics_handle {store : Store} {draws : Draws} {request : Request} {endpoint : Endpoint}
    (h : Endpoint.ofPath? (Endpoint.pathOf request.target) = some endpoint) :
    (handle store draws request).metrics = (dispatch store draws request endpoint).metrics ++
      Metric.httpRequest request.method (Endpoint.pathOf request.target)
        (handle store draws request).response.status draws.requestSeconds := by
  simp only [handle, h, respond]

/-- A request that comes to none of the counted operations leaves nothing of an operation. -/
theorem metrics_dispatch_of_not_isReached {store : Store} {draws : Draws} {request : Request}
    {endpoint : Endpoint} (hpath : Endpoint.pathOf request.target = endpoint.path)
    (h : ∀ operation : Counted, ¬ operation.IsReached request) :
    (dispatch store draws request endpoint).metrics = [] := by
  have hcomes := comesTo_dispatch store draws request endpoint
  generalize dispatch store draws request endpoint = handled at hcomes ⊢
  cases hcomes with
  | told => rfl
  | @create payload hpost hdecode =>
    cases hcheck : payload.check with
    | error e => rw [createRule_of_objection store draws hcheck]
    | ok u => exact absurd ⟨⟨hpost, hpath⟩, hdecode, hcheck⟩ (h (.create payload))
  | @parse payload hpost hdecode => exact absurd ⟨⟨hpost, hpath⟩, hdecode⟩ (h (.parse payload))
  | @combine payload hpost hdecode => exact absurd ⟨⟨hpost, hpath⟩, hdecode⟩ (h (.combine payload))
  | @evaluate payload hpost hdecode =>
    cases hcheck : payload.check with
    | error e => rw [evaluateRule, hcheck]
    | ok u => exact absurd ⟨⟨hpost, hpath⟩, hdecode, hcheck⟩ (h (.evaluate payload))
  | find => rw [showRule_eq]
  | delete =>
    rw [deleteRule_eq]
    split <;> rfl

/-- What the metrics of a request are, of which those of an operation come first. -/
structure Meters (draws : Draws) (request : Request) (outcome : Outcome) (path : String)
    (domain : List Metric) : Prop where
  hasPath : request.HasPath path
  metrics_eq : outcome.metrics = domain ++
    let labels := [("method", request.method), ("path", path),
      ("status", Text.natText outcome.response.status)]
    [⟨"http_requests_total", labels, .increment⟩,
      ⟨"http_request_duration_seconds", labels, .observed draws.requestSeconds⟩]
  reached : ∀ operation : Counted, operation.IsReached request →
    operation.Leaves outcome.response draws.evaluationSeconds domain
  quiet : (∀ operation : Counted, ¬ operation.IsReached request) → domain = []

/-- Whatever the store, the metrics of a request are those of the operation that it comes to, if it
comes to one that is counted, and then those of the request, all in agreement with the answer. -/
theorem metrics_agree_with_answers (store : Store) (draws : Draws) (request : Request) :
    ∃ path domain, Meters draws request (handle store draws request) path domain := by
  cases hendpoint : Endpoint.ofPath? (Endpoint.pathOf request.target) with
  | none =>
    refine ⟨_, [], request.hasPath_pathOf, ?_, ?_, fun _ => rfl⟩
    · simp only [handle, hendpoint, respond]
      rfl
    · intro operation h
      cases hendpoint.symm.trans h.ofPath?_eq
  | some endpoint =>
    refine ⟨_, (dispatch store draws request endpoint).metrics, request.hasPath_pathOf,
      metrics_handle hendpoint, ?_, ?_⟩
    · intro operation h
      cases hendpoint.symm.trans h.ofPath?_eq
      have hshows := h.asks.shows operation.isNamed_endpoint (by decide) store draws
      rw [h.dispatch_eq] at hshows ⊢
      exact h.carried.leaves hshows.response
    · intro h
      exact metrics_dispatch_of_not_isReached (Endpoint.ofPath?_eq_some_iff.mp hendpoint).1 h

/-- Rule text in infix notation is refused, and is counted under the code that the answer tells. -/
example : (handle .empty ⟨"id", "request", .ofSeconds 0, .ofNat 0, 0, .ofNat 0⟩
      (.post "/api/rules/parse?v=1" (ParsePayload.toJson ⟨"age > 30"⟩))).metrics.map Metric.series =
    ["rule_parses_total\x7bstatus=STACK_UNDERFLOW\x7d",
      "http_requests_total\x7bmethod=POST,path=/api/rules/parse,status=400\x7d",
      "http_request_duration_seconds\x7bmethod=POST,path=/api/rules/parse,status=400\x7d"] := by
  decide +kernel

end Service

end PostfixRules
