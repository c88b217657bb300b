import PostfixRules.Proofs.Json.Form
import PostfixRules.Service.Handler

/-!
# Requests that carry a value

The body of a request carries a JSON object if it consists of the tokens of the object, however they
are spelled and spaced. Such a body is decoded as the payload that the object is the form of, so
that the request is carried out on that payload.
-/

namespace PostfixRules

/-! ## Bodies -/

/-- A body is decoded by its form from the members that it carries, in whatever order. -/
theorem Json.decodeBody_of_perm {α : Type} {fields : List Json.Field}
    {ofFields? : List (Option Json) → Option α} {members listed : List (String × Json)}
    {body : String} {values : List (Option Json)} {payload : α}
    (hscan : scan body.toList = (Json.object members).tokens) (hperm : members.Perm listed)
    (h : FitsForm (nestingLimit - 1) fields listed) (hcollect : collect fields listed = .ok values)
    (hfields : ofFields? values = some payload) :
    decodeBody fields ofFields? body = .ok payload := by
  simp only [decodeBody, fillIn_of_perm hscan hperm h, hcollect, hfields]

/-- A body is decoded by its form from the members that it carries. -/
theorem Json.decodeBody_of_scan {α : Type} {fields : List Json.Field}
    {ofFields? : List (Option Json) → Option α} {members : List (String × Json)} {body : String}
    {values : List (Option Json)} {payload : α}
    (hscan : scan body.toList = (Json.object members).tokens)
    (h : FitsForm (nestingLimit - 1) fields members)
    (hcollect : collect fields members = .ok values) (hfields : ofFields? values = some payload) :
    decodeBody fields ofFields? body = .ok payload :=
  decodeBody_of_perm hscan (List.Perm.refl members) h hcollect hfields

namespace ParsePayload

/-- The body that asks for rule text to be read. -/
def toJson (payload : ParsePayload) : Json :=
  .object [("ruleString", .string payload.ruleText)]

theorem decode_of_scan {payload : ParsePayload} {body : String}
    (hscan : Json.scan body.toList = payload.toJson.tokens) : decode body = .ok payload := by
  refine Json.decodeBody_of_scan hscan ⟨?_, ?_⟩ rfl rfl
  · intro member hm
    obtain rfl := List.mem_singleton.mp hm
    exact ⟨_, rfl, trivial⟩
  · simp

end ParsePayload

namespace CreatePayload

/-- The body that asks for a rule to be created. -/
def toJson (payload : CreatePayload) : Json :=
  .object [("name", .string payload.name), ("description", .string payload.description),
    ("ruleString", .string payload.ruleText)]

theorem decode_of_scan {payload : CreatePayload} {body : String}
    (hscan : Json.scan body.toList = payload.toJson.tokens) : decode body = .ok payload := by
  refine Json.decodeBody_of_scan hscan ⟨?_, ?_⟩ rfl rfl
  · intro member hm
    simp only [List.mem_cons, List.not_mem_nil, or_false] at hm
    rcases hm with rfl | rfl | rfl <;> exact ⟨_, rfl, trivial⟩
  · simp

end CreatePayload

namespace EvaluatePayload

/-- The body that asks for a tree to be run on data. -/
def submission (ast data : Json) (traced : Bool) : Json :=
  .object [("ast", ast), ("data", data), ("trace", .bool traced)]

/-- The body that asks for a stored rule to be run on data. -/
def reference (id : String) (data : Json) (traced : Bool) : Json :=
  .object [("ruleId", .string id), ("data", data), ("trace", .bool traced)]

/-- Whether members are those of a body that submits a tree to be run on data, in any order; a flag
that is not set may be left out. -/
def IsSubmission (members : List (String × Json)) (ast data : Json) (traced : Bool) : Prop :=
  members.Perm [("ast", ast), ("data", data), ("trace", .bool traced)] ∨
    traced = false ∧ members.Perm [("ast", ast), ("data", data)]

theorem isSubmission_refl (ast data : Json) (traced : Bool) :
    IsSubmission [("ast", ast), ("data", data), ("trace", .bool traced)] ast data traced :=
  .inl (List.Perm.refl _)

/-- The members of a submission fit the form. -/
theorem fitsForm_submission {ast data : Json} (traced : Bool) (hast : ast.nesting ≤ 126)
    (hdata : data.nesting ≤ 126) : Json.FitsForm (Json.nestingLimit - 1) formFields
      [("ast", ast), ("data", data), ("trace", .bool traced)] := by
  refine ⟨?_, by simp⟩
  intro member hm
  simp only [List.mem_cons, List.not_mem_nil, or_false] at hm
  rcases hm with rfl | rfl | rfl
  · exact ⟨_, rfl, .inr hast⟩
  · exact ⟨_, rfl, hdata⟩
  · exact ⟨_, rfl, trivial⟩

/-- A submission is decoded as such. -/
theorem decode_of_isSubmission {members : List (String × Json)} {ast data : Json} {traced : Bool}
    {body : String} (hscan : Json.scan body.toList = (Json.object members).tokens)
    (h : IsSubmission members ast data traced) (hast : ast.nesting ≤ 126)
    (hnull : ast.isNull = false) (hdata : data.nesting ≤ 126) :
    decode body = .ok ⟨some ast.settle, none, data.settle, traced⟩ := by
  have hpresent : present (some ast) = some ast := by
    simp only [present, Option.filter_some, hnull, Bool.not_false, if_true]
  have hfields :
      (EvaluatePayload.mk ((present (some ast)).map Json.settle) none data.settle traced) =
      ⟨some ast.settle, none, data.settle, traced⟩ := by
    rw [hpresent]
    rfl
  have hfits := fitsForm_submission traced hast hdata
  rcases h with hperm | ⟨rfl, hperm⟩
  · exact Json.decodeBody_of_perm hscan hperm hfits rfl (congrArg some hfields)
  · have hfewer : Json.FitsForm (Json.nestingLimit - 1) formFields
        [("ast", ast), ("data", data)] := by
      refine ⟨?_, by simp⟩
      intro member hm
      have hm' : member ∈ [("ast", ast), ("data", data)] ++ [("trace", Json.bool false)] :=
        List.mem_append_left _ hm
      exact hfits.fits member hm'
    exact Json.decodeBody_of_perm hscan hperm hfewer rfl (congrArg some hfields)

theorem decode_reference {id : String} {data : Json} {traced : Bool} {body : String}
    (hscan : Json.scan body.toList = (reference id data traced).tokens)
    (hdata : data.nesting ≤ 126) :
    decode body = .ok ⟨none, some id, data.settle, traced⟩ := by
  refine Json.decodeBody_of_scan hscan ⟨?_, ?_⟩ rfl rfl
  · intro member hm
    simp only [List.mem_cons, List.not_mem_nil, or_false] at hm
    rcases hm with rfl | rfl | rfl
    · exact ⟨_, rfl, .inr trivial⟩
    · exact ⟨_, rfl, hdata⟩
    · exact ⟨_, rfl, trivial⟩
  · simp

end EvaluatePayload

/-! ## Requests -/

/-- Whether a request sends a JSON value to a path, in a body that is announced as JSON and within
the limit. -/
structure Request.Carries (request : Request) (path : String) (value : Json) : Prop where
  method : request.method = "POST"
  path : Endpoint.pathOf request.target = path
  announced : request.contentType.any MediaType.announcesJson = true
  small : request.body.utf8ByteSize ≤ Service.bodyLimit
  tokens : Json.scan request.body.toList = value.tokens

/-- The request that sends a JSON value to a path in the shortest spelling. -/
def Request.post (path : String) (value : Json) : Request :=
  ⟨"POST", path, some "application/json", none, Json.write value⟩

theorem MediaType.announcesJson_applicationJson : announcesJson "application/json" = true := by
  decide +kernel

theorem Request.carries_post {path : String} {value : Json} (hpath : Endpoint.pathOf path = path)
    (hsmall : (Json.write value).utf8ByteSize ≤ Service.bodyLimit) :
    (post path value).Carries path value :=
  ⟨rfl, hpath, MediaType.announcesJson_applicationJson, hsmall, Json.scan_write value⟩

/-- Whether a response has the status and the body of a reply. -/
structure Response.Shows (response : Response) (reply : Reply) : Prop where
  status : response.status = reply.status
  body : response.body = reply.body

namespace Service

/-- Whether an outcome is that of an operation. -/
structure Shows (outcome : Outcome) (handled : Handled) : Prop where
  store : outcome.store = handled.store
  response : outcome.response.Shows handled.reply

/-- A request whose body is decoded is carried out. -/
theorem withPayload_of_ok {α : Type} {store : Store} {decode : String → Except Json.Fault α}
    {request : Request} {operation : α → Handled} {payload : α}
    (h : decodeRequest decode request = .ok payload) :
    withPayload store decode request operation = operation payload := by
  rw [withPayload, h]

/-- A request whose body is not decoded is refused. -/
theorem withPayload_of_error {α : Type} {store : Store} {decode : String → Except Json.Fault α}
    {request : Request} {operation : α → Handled} {reply : Reply}
    (h : decodeRequest decode request = .error reply) :
    withPayload store decode request operation = ⟨store, reply, []⟩ := by
  rw [withPayload, h]

/-- What a request carries is decoded if the text of its body is. -/
theorem decodeRequest_of_carries {α : Type} {decode : String → Except Json.Fault α}
    {request : Request} {path : String} {value : Json} {payload : α}
    (h : request.Carries path value) (hdecode : decode request.body = .ok payload) :
    decodeRequest decode request = .ok payload := by
  rw [decodeRequest, h.announced, if_neg (by decide), if_neg (Nat.not_lt.mpr h.small), hdecode]

/-- A body that is not decoded is refused in plain words. -/
theorem exists_plain_of_decodeRequest {α : Type} {decode : String → Except Json.Fault α}
    {request : Request} {reply : Reply} (h : decodeRequest decode request = .error reply) :
    ∃ status text, reply = .plain status text ∧ status ∈ [400, 413, 415, 422] := by
  unfold decodeRequest at h
  split at h
  · cases h
    exact ⟨_, _, rfl, by decide⟩
  · split at h
    · cases h
      exact ⟨_, _, rfl, by decide⟩
    · split at h
      · cases h
      · cases h
        exact ⟨_, _, rfl, by decide⟩
      · cases h
        exact ⟨_, _, rfl, by decide⟩

/-- A request for the path of an endpoint does what the operation of the endpoint does. -/
theorem store_handle {store : Store} {draws : Draws} {request : Request} {endpoint : Endpoint}
    (h : Endpoint.ofPath? (Endpoint.pathOf request.target) = some endpoint) :
    (handle store draws request).store = (dispatch store draws request endpoint).store := by
  simp only [handle, h]

/-- It also shows the operation of the endpoint, unless it asks for the head only. -/
theorem handle_shows {store : Store} {draws : Draws} {request : Request} {endpoint : Endpoint}
    (h : Endpoint.ofPath? (Endpoint.pathOf request.target) = some endpoint)
    (hmethod : request.method ≠ "HEAD") :
    Shows (handle store draws request) (dispatch store draws request endpoint) := by
  refine ⟨store_handle h, ?_, ?_⟩ <;> simp only [handle, h, respond]
  exact if_neg hmethod

/-- A request that sends a value to an endpoint shows what the operation of the endpoint makes of
it. -/
theorem handle_of_carries {α : Type} {store : Store} {draws : Draws} {request : Request}
    {path : String} {value : Json} {endpoint : Endpoint} {decode : String → Except Json.Fault α}
    {operation : α → Handled} {payload : α} (h : request.Carries path value)
    (hendpoint : Endpoint.ofPath? path = some endpoint)
    (hdispatch : dispatch store draws request endpoint =
      withPayload store decode request operation)
    (hdecode : decode request.body = .ok payload) :
    Shows (handle store draws request) (operation payload) := by
  have hmethod : request.method ≠ "HEAD" := by
    rw [h.method]
    decide
  have hrun : dispatch store draws request endpoint = operation payload :=
    hdispatch.trans (withPayload_of_ok (decodeRequest_of_carries h hdecode))
  rw [← h.path] at hendpoint
  rw [← hrun]
  exact handle_shows hendpoint hmethod

theorem dispatch_parse {store : Store} {draws : Draws} {request : Request}
    (h : request.method = "POST") : dispatch store draws request .parse =
      withPayload store ParsePayload.decode request (parseRule store) :=
  if_pos h

theorem dispatch_create {store : Store} {draws : Draws} {request : Request}
    (h : request.method = "POST") : dispatch store draws request .rules =
      withPayload store CreatePayload.decode request (createRule store draws) := by
  have hreading : isReading request.method = false := by
    rw [h]
    decide
  exact (if_neg (by rw [hreading]; decide)).trans (if_pos h)

theorem dispatch_evaluate {store : Store} {draws : Draws} {request : Request}
    (h : request.method = "POST") : dispatch store draws request .evaluate =
      withPayload store EvaluatePayload.decode request (evaluateRule store draws) :=
  if_pos h

theorem dispatch_combine {store : Store} {draws : Draws} {request : Request}
    (h : request.method = "POST") : dispatch store draws request .combine =
      withPayload store CombinePayload.decode request (combineRules store) :=
  if_pos h

theorem dispatch_list {store : Store} {draws : Draws} {request : Request}
    (h : isReading request.method = true) :
    dispatch store draws request .rules = listRules store :=
  if_pos h

theorem dispatch_show {store : Store} {draws : Draws} {request : Request} {segment : String}
    (h : isReading request.method = true) : dispatch store draws request (.rule segment) =
      withId store segment (showRule store) :=
  if_pos h

theorem dispatch_delete {store : Store} {draws : Draws} {request : Request} {segment : String}
    (h : request.method = "DELETE") : dispatch store draws request (.rule segment) =
      withId store segment (deleteRule store) := by
  have hreading : ¬ isReading request.method = true := by
    rw [h]
    decide
  exact (if_neg hreading).trans (if_pos h)

/-- An id that is encoded in a path is decoded. -/
theorem withId_of_decode {store : Store} {segment id : String} {operation : String → Handled}
    (h : Text.percentDecode? segment = some id) :
    withId store segment operation = operation id := by
  rw [withId, h]

/-- Rule text that is sent to be read is read. -/
theorem handle_parse (store : Store) (draws : Draws) {request : Request} {payload : ParsePayload}
    (h : request.Carries "/api/rules/parse" payload.toJson) :
    Shows (handle store draws request) (parseRule store payload) :=
  handle_of_carries h (by decide +kernel) (dispatch_parse h.method)
    (ParsePayload.decode_of_scan h.tokens)

/-- A rule that is sent to be created is created. -/
theorem handle_create (store : Store) (draws : Draws) {request : Request}
    {payload : CreatePayload} (h : request.Carries "/api/rules" payload.toJson) :
    Shows (handle store draws request) (createRule store draws payload) :=
  handle_of_carries h (by decide +kernel) (dispatch_create h.method)
    (CreatePayload.decode_of_scan h.tokens)

/-- A request to run something is carried out on its payload. -/
theorem handle_evaluate (store : Store) (draws : Draws) {request : Request} {value : Json}
    {payload : EvaluatePayload} (h : request.Carries "/api/rules/evaluate" value)
    (hdecode : EvaluatePayload.decode request.body = .ok payload) :
    Shows (handle store draws request) (evaluateRule store draws payload) :=
  handle_of_carries h (by decide +kernel) (dispatch_evaluate h.method) hdecode

end Service

end PostfixRules
