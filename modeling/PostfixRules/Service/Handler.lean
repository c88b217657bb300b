import PostfixRules.Service.MediaType
import PostfixRules.Service.Payload
import PostfixRules.Service.Reply
import PostfixRules.Service.Route

/-!
# Answering requests

The service is a state machine over the rule store. What it takes from its surroundings, that is
fresh ids, the time and the durations that it measures, comes with each request as a value. Every
request gives the store afterwards, a response, and metrics: first those of the operation that was
carried out, then those of the request itself.
-/

namespace PostfixRules

/-- A request as sent. -/
structure Request where
  method : String
  /-- The path with its query. -/
  target : String
  contentType : Option String
  requestId : Option String
  /-- The body as text. Bytes that are not UTF-8, which no JSON document has, are left out. -/
  body : String
  deriving DecidableEq, Repr

/-- What one request takes from the surroundings. -/
structure Draws where
  /-- An id for a rule that may be created. -/
  ruleId : String
  /-- An id for a request that has none. -/
  requestId : String
  now : Timestamp
  /-- How long running a rule takes. -/
  evaluationSeconds : Double
  evaluationMillis : Nat
  /-- How long the whole request takes. -/
  requestSeconds : Double
  deriving DecidableEq, Repr

/-- A response. -/
structure Response where
  status : Nat
  contentType : Option String
  allow : Option String
  requestId : String
  body : Body

/-- The store, the reply and the metrics of an operation. -/
structure Handled where
  store : Store
  reply : Reply
  metrics : List Metric

/-- All that a request leads to. -/
structure Outcome where
  store : Store
  reply : Reply
  response : Response
  metrics : List Metric

namespace Service

/-- The largest body that is taken, in bytes. -/
def bodyLimit : Nat := 2097152

/-- A body is decoded if it is announced as JSON, is not too large, is JSON, and fills in its
form; these are checked in this order. -/
def decodeRequest {α : Type} (decode : String → Except Json.Fault α) (request : Request) :
    Except Reply α :=
  if !(request.contentType.any MediaType.announcesJson) then
    .error (.plain 415 ("Expected request with " ++ String.singleton (Char.ofNat 0x60) ++
      "Content-Type: application/json" ++ String.singleton (Char.ofNat 0x60)))
  else if bodyLimit < request.body.utf8ByteSize then
    .error (.plain 413 "Failed to buffer the request body")
  else match decode request.body with
    | .ok payload => .ok payload
    | .error .malformed => .error (.plain 400 "Failed to parse the request body as JSON")
    | .error .mismatched =>
      .error (.plain 422 "Failed to deserialize the JSON body into the target type")

/-- How metrics name the outcome of an operation: `ok`, or the code of the error. -/
def outcomeLabel {α : Type} : Except RuleError α → String
  | .ok _ => "ok"
  | .error error => error.code

/-- Create a rule. A request to which there are objections is not counted as reading rule text. -/
def createRule (store : Store) (draws : Draws) (payload : CreatePayload) : Handled :=
  match payload.check with
  | .error error => ⟨store, .failure error, []⟩
  | .ok () =>
    let (result, store) :=
      store.create draws.ruleId draws.now payload.name payload.description payload.ruleText
    ⟨store, .ofResult 201 Rule.toJson result, Metric.ruleParse (outcomeLabel result)⟩

/-- Read rule text without keeping it. -/
def parseRule (store : Store) (payload : ParsePayload) : Handled :=
  let result := parse payload.ruleText
  ⟨store, .ofResult 200 Expr.toJson result, Metric.ruleParse (outcomeLabel result)⟩

/-- Combine stored rules. -/
def combineRules (store : Store) (payload : CombinePayload) : Handled :=
  let result := store.combine payload.ruleIds
  ⟨store, .ofResult 200 Expr.toJson result,
    Metric.ruleCombine payload.ruleIds.length (outcomeLabel result)⟩

/-- Run a submitted tree, once it has been read and checked, or else a stored rule. -/
def runPayload (store : Store) (payload : EvaluatePayload) : Except RuleError Execution :=
  let record : Record := ⟨payload.data⟩
  match payload.ast, payload.ruleId with
  | some ast, _ =>
    (Expr.decode ast).bind fun expr =>
      (validate expr rootPath).bind fun () => expr.run payload.traced record
  | none, some id =>
    match store.get? id with
    | some compiled => compiled.run payload.traced record
    | none => .error (.ruleNotFound id)
  | none, none => .error (.validation (.single .noTarget))

/-- How metrics name the outcome of running a rule. -/
def verdictLabel : Except RuleError Execution → String
  | .ok execution => if execution.findings.matched then "matched" else "not_matched"
  | .error error => error.code

/-- Run a rule. -/
def evaluateRule (store : Store) (draws : Draws) (payload : EvaluatePayload) : Handled :=
  match payload.check with
  | .error error => ⟨store, .failure error, []⟩
  | .ok () =>
    let result := runPayload store payload
    ⟨store, .ofResult 200 (Execution.toJson · draws.evaluationMillis) result,
      Metric.ruleEvaluation (verdictLabel result) draws.evaluationSeconds⟩

/-- List all rules. -/
def listRules (store : Store) : Handled :=
  ⟨store, .success 200 (some (.array (store.list.map Rule.toJson))), []⟩

/-- Show one rule. -/
def showRule (store : Store) (id : String) : Handled :=
  match store.get? id with
  | some compiled => ⟨store, .success 200 (some compiled.rule.toJson), []⟩
  | none => ⟨store, .failure (.ruleNotFound id), []⟩

/-- Delete one rule. -/
def deleteRule (store : Store) (id : String) : Handled :=
  match store.delete id with
  | (.ok (), store) => ⟨store, .success 200 none, []⟩
  | (.error error, store) => ⟨store, .failure error, []⟩

/-- Carry out an operation on a decoded body. -/
def withPayload {α : Type} (store : Store) (decode : String → Except Json.Fault α)
    (request : Request) (operation : α → Handled) : Handled :=
  match decodeRequest decode request with
  | .ok payload => operation payload
  | .error reply => ⟨store, reply, []⟩

/-- Carry out an operation on the id in a path. -/
def withId (store : Store) (segment : String) (operation : String → Handled) : Handled :=
  match Text.percentDecode? segment with
  | some id => operation id
  | none =>
    let quote := String.singleton (Char.ofNat 0x60)
    ⟨store, .plain 400 ("Invalid URL: Invalid UTF-8 in " ++ quote ++ "id" ++ quote), []⟩

/-- Whether a method asks for something to be shown. -/
def isReading (method : String) : Bool :=
  method == "GET" || method == "HEAD"

/-- Carry out the operation of an endpoint and a method. -/
def dispatch (store : Store) (draws : Draws) (request : Request) (endpoint : Endpoint) : Handled :=
  let refused : Handled := ⟨store, .otherMethods endpoint.methods, []⟩
  match endpoint with
  | .rules =>
    if isReading request.method then listRules store
    else if request.method = "POST" then
      withPayload store CreatePayload.decode request (createRule store draws)
    else refused
  | .parse =>
    if request.method = "POST" then
      withPayload store ParsePayload.decode request (parseRule store)
    else refused
  | .combine =>
    if request.method = "POST" then
      withPayload store CombinePayload.decode request (combineRules store)
    else refused
  | .evaluate =>
    if request.method = "POST" then
      withPayload store EvaluatePayload.decode request (evaluateRule store draws)
    else refused
  | .stats =>
    if isReading request.method then ⟨store, .success 200 (some store.stats.toJson), []⟩
    else refused
  | .rule segment =>
    if isReading request.method then withId store segment (showRule store)
    else if request.method = "DELETE" then withId store segment (deleteRule store)
    else refused
  | .health =>
    if isReading request.method then ⟨store, .plain 200 "OK", []⟩ else refused

/-- The id of a request is kept if it consists of characters that a header may have. -/
def requestIdOf (request : Request) (draws : Draws) : String :=
  match request.requestId with
  | some id => if id.toList.all MediaType.isHeaderChar then id else draws.requestId
  | none => draws.requestId

/-- The response to a request; a request for the head only gets an empty body. -/
def respond (request : Request) (draws : Draws) (reply : Reply) : Response where
  status := reply.status
  contentType := reply.contentType?
  allow := reply.allow?
  requestId := requestIdOf request draws
  body := if request.method = "HEAD" then .empty else reply.body

/-- Answer a request. -/
def handle (store : Store) (draws : Draws) (request : Request) : Outcome :=
  let path := Endpoint.pathOf request.target
  let handled : Handled :=
    match Endpoint.ofPath? path with
    | some endpoint => dispatch store draws request endpoint
    | none => ⟨store, .noEndpoint, []⟩
  { store := handled.store
    reply := handled.reply
    response := respond request draws handled.reply
    metrics := handled.metrics ++
      Metric.httpRequest request.method path handled.reply.status draws.requestSeconds }

end Service

end PostfixRules
