import PostfixRules.Proofs.Service.Request

/-!
# What a request for an endpoint comes to

A request either comes to one of six operations, with what its body or its path has been decoded
to, or it is told something that is no failure, and then nothing else happens. Whatever is to be
shown of all requests needs to be shown of these cases only.
-/

namespace PostfixRules.Service

/-- What a request for an endpoint may come to. -/
inductive ComesTo (store : Store) (draws : Draws) (request : Request) :
    Endpoint → Handled → Prop
  /-- Something is shown, or the request is refused before any operation. -/
  | told {endpoint : Endpoint} {reply : Reply} (hreply : ∀ e, reply ≠ .failure e) :
    ComesTo store draws request endpoint ⟨store, reply, []⟩
  | create {payload : CreatePayload} (hpost : request.method = "POST")
    (hdecode : decodeRequest CreatePayload.decode request = .ok payload) :
    ComesTo store draws request .rules (createRule store draws payload)
  | parse {payload : ParsePayload} (hpost : request.method = "POST")
    (hdecode : decodeRequest ParsePayload.decode request = .ok payload) :
    ComesTo store draws request .parse (parseRule store payload)
  | combine {payload : CombinePayload} (hpost : request.method = "POST")
    (hdecode : decodeRequest CombinePayload.decode request = .ok payload) :
    ComesTo store draws request .combine (combineRules store payload)
  | evaluate {payload : EvaluatePayload} (hpost : request.method = "POST")
    (hdecode : decodeRequest EvaluatePayload.decode request = .ok payload) :
    ComesTo store draws request .evaluate (evaluateRule store draws payload)
  | find {segment id : String} (hreading : isReading request.method = true)
    (hdecode : Text.percentDecode? segment = some id) :
    ComesTo store draws request (.rule segment) (showRule store id)
  | delete {segment id : String} (hdelete : request.method = "DELETE")
    (hdecode : Text.percentDecode? segment = some id) :
    ComesTo store draws request (.rule segment) (deleteRule store id)

variable {store : Store} {draws : Draws} {request : Request} {endpoint : Endpoint}

/-- A request with a body comes to an operation on what the body is decoded to, or is refused. -/
theorem comesTo_withPayload {α : Type} {decode : String → Except Json.Fault α}
    {operation : α → Handled} (h : ∀ payload, decodeRequest decode request = .ok payload →
      ComesTo store draws request endpoint (operation payload)) :
    ComesTo store draws request endpoint (withPayload store decode request operation) := by
  cases hdecode : decodeRequest decode request with
  | ok payload =>
    rw [withPayload_of_ok hdecode]
    exact h payload hdecode
  | error reply =>
    rw [withPayload_of_error hdecode]
    obtain ⟨status, text, rfl, -⟩ := exists_plain_of_decodeRequest hdecode
    exact .told fun e => by simp

/-- A request for a single rule comes to an operation on the id in its path, or is refused. -/
theorem comesTo_withId {segment : String} {operation : String → Handled}
    (h : ∀ id, Text.percentDecode? segment = some id →
      ComesTo store draws request endpoint (operation id)) :
    ComesTo store draws request endpoint (withId store segment operation) := by
  cases hdecode : Text.percentDecode? segment with
  | some id =>
    rw [withId_of_decode hdecode]
    exact h id hdecode
  | none =>
    rw [withId, hdecode]
    exact .told fun e => by simp

/-- A request with a method that the endpoint does not have is told the methods that it has. -/
theorem comesTo_refused {handled : Handled}
    (h : handled = ⟨store, .otherMethods endpoint.methods, []⟩) :
    ComesTo store draws request endpoint handled := by
  rw [h]
  exact .told fun e => by simp

/-- Every request for an endpoint comes to one of these cases. -/
theorem comesTo_dispatch (store : Store) (draws : Draws) (request : Request)
    (endpoint : Endpoint) :
    ComesTo store draws request endpoint (dispatch store draws request endpoint) := by
  cases endpoint with
  | rules =>
    by_cases hreading : isReading request.method = true
    · rw [dispatch_list hreading]
      exact .told fun e => by simp
    · by_cases hpost : request.method = "POST"
      · rw [dispatch_create hpost]
        exact comesTo_withPayload fun _ => .create hpost
      · exact comesTo_refused ((if_neg hreading).trans (if_neg hpost))
  | parse =>
    by_cases hpost : request.method = "POST"
    · rw [dispatch_parse hpost]
      exact comesTo_withPayload fun _ => .parse hpost
    · exact comesTo_refused (if_neg hpost)
  | combine =>
    by_cases hpost : request.method = "POST"
    · rw [dispatch_combine hpost]
      exact comesTo_withPayload fun _ => .combine hpost
    · exact comesTo_refused (if_neg hpost)
  | evaluate =>
    by_cases hpost : request.method = "POST"
    · rw [dispatch_evaluate hpost]
      exact comesTo_withPayload fun _ => .evaluate hpost
    · exact comesTo_refused (if_neg hpost)
  | rule segment =>
    by_cases hreading : isReading request.method = true
    · rw [dispatch_show hreading]
      exact comesTo_withId fun _ => .find hreading
    · by_cases hdelete : request.method = "DELETE"
      · rw [dispatch_delete hdelete]
        exact comesTo_withId fun _ => .delete hdelete
      · exact comesTo_refused ((if_neg hreading).trans (if_neg hdelete))
  | stats | health =>
    by_cases hreading : isReading request.method = true
    · rw [dispatch, if_pos hreading]
      exact .told fun e => by simp
    · exact comesTo_refused (if_neg hreading)

end PostfixRules.Service
