import PostfixRules.Proofs.Service.Metering

/-!
# Creating rules

A request to create a rule is admitted if its name and its description keep within their limits. The
limits are looked at before the rule text: a request that does not keep to them is told so whatever
its text is, and reading rule text is not counted. An admitted request creates a rule exactly if its
text is one. In all other cases nothing is stored.
-/

namespace PostfixRules

/-- There is nothing to object to exactly if no field has an objection. -/
theorem rejectIf_eq_ok_iff {objections : List (String × List Objection)} :
    rejectIf objections = .ok () ↔ ∀ field ∈ objections, field.2 = [] := by
  simp [rejectIf]

/-- The limits that a request to create a rule has to keep to, counted in characters. -/
structure CreatePayload.IsAdmissible (payload : CreatePayload) : Prop where
  one_le_name : 1 ≤ payload.name.length
  name_le : payload.name.length ≤ 100
  exists_not_blank : ∃ c ∈ payload.name.toList, Text.isBlank c = false
  description_le : payload.description.length ≤ 500

namespace CreatePayload

theorem nameObjections_eq_nil_iff {name : String} :
    nameObjections name = [] ↔
      (1 ≤ name.length ∧ name.length ≤ 100) ∧ ∃ c ∈ name.toList, Text.isBlank c = false := by
  have hblank : Text.allBlank name = false ↔ ∃ c ∈ name.toList, Text.isBlank c = false :=
    List.all_eq_false.trans (by simp only [Bool.not_eq_true])
  rw [nameObjections, List.append_eq_nil_iff, ← hblank]
  simp

theorem descriptionObjections_eq_nil_iff {description : String} :
    descriptionObjections description = [] ↔ description.length ≤ 500 := by
  simp [descriptionObjections]

/-- There is no objection exactly to what keeps to the limits. -/
theorem check_eq_ok_iff {payload : CreatePayload} :
    payload.check = .ok () ↔ payload.IsAdmissible := by
  rw [check, rejectIf_eq_ok_iff, List.forall_mem_cons, List.forall_mem_singleton,
    nameObjections_eq_nil_iff, descriptionObjections_eq_nil_iff]
  constructor
  · rintro ⟨⟨⟨hone, hname⟩, hblank⟩, hdescription⟩
    exact ⟨hone, hname, hblank, hdescription⟩
  · rintro ⟨hone, hname, hblank, hdescription⟩
    exact ⟨⟨⟨hone, hname⟩, hblank⟩, hdescription⟩

end CreatePayload

namespace Service

/-- What it means that a request has created a rule: it shows the rule, the rule is stored under its
id, and what is stored under other ids is as it was. -/
structure Creates (store : Store) (outcome : Outcome) (rule : Rule) : Prop where
  response : outcome.response.Shows (.success 201 (some rule.toJson))
  stored : ∃ compiled, outcome.store.get? rule.id = some compiled ∧ compiled.rule = rule
  others : ∀ id, id ≠ rule.id → outcome.store.get? id = store.get? id

section Outcomes

variable {request : Request} {payload : CreatePayload} (store : Store) (draws : Draws)
  (hasks : request.Asks "POST" "/api/rules")
  (hdecode : decodeRequest CreatePayload.decode request = .ok payload)

include hasks hdecode

/-- A request to create a rule shows what is made of its payload. -/
theorem handle_shows_createRule :
    Shows (handle store draws request) (createRule store draws payload) :=
  Request.Asks.shows_of_decode store draws (dispatch_create hasks.method) hasks trivial hdecode

/-- An admitted request with a text that is a rule creates the rule. -/
theorem creates_of_parse (hid : draws.ruleId ≠ "") (hadmissible : payload.IsAdmissible)
    {expr : Expr} (hparse : parse payload.ruleText = .ok expr) :
    Creates store (handle store draws request)
      (Rule.create draws.ruleId draws.now payload.name payload.description expr) := by
  have hshows := handle_shows_createRule store draws hasks hdecode
  have hcreate := store.create_of_parse_ok hid draws.now payload.name payload.description hparse
  rw [createRule_of_check store draws (CreatePayload.check_eq_ok_iff.mpr hadmissible) hcreate]
    at hshows
  refine ⟨hshows.response, ?_, ?_⟩
  · rw [hshows.store]
    exact ⟨_, store.get?_afterLoad _, rfl⟩
  · intro id hne
    rw [hshows.store]
    exact (store.get?_afterLoad_eq_ite _ id).trans (if_neg hne)

/-- An admitted request with any other text is told what is wrong with the text. -/
theorem tells_of_parse_error (hadmissible : payload.IsAdmissible) {e : RuleError}
    (hparse : parse payload.ruleText = .error e) :
    (handle store draws request).store = store ∧
      (handle store draws request).response.Tells e.code e.message := by
  have hshows := handle_shows_createRule store draws hasks hdecode
  have hcreate := store.create_of_parse_error draws.ruleId draws.now payload.name
    payload.description hparse
  rw [createRule_of_check store draws (CreatePayload.check_eq_ok_iff.mpr hadmissible) hcreate]
    at hshows
  have hfailure : (handle store draws request).response.Shows (.failure e) := hshows.response
  exact ⟨hshows.store, hfailure.tells⟩

/-- A request that is not admitted is told so, and no reading of rule text is counted. -/
theorem tells_of_not_admissible (hadmissible : ¬ payload.IsAdmissible) :
    (handle store draws request).store = store ∧
      (∃ message, (handle store draws request).response.Tells "VALIDATION_ERROR" message) ∧
      ∀ metric ∈ (handle store draws request).metrics, metric.name ≠ "rule_parses_total" := by
  have hshows := handle_shows_createRule store draws hasks hdecode
  cases hcheck : payload.check with
  | ok u => exact absurd (CreatePayload.check_eq_ok_iff.mp hcheck) hadmissible
  | error e =>
    have hobjection := createRule_of_objection store draws hcheck
    rw [hobjection] at hshows
    have hfailure : (handle store draws request).response.Shows (.failure e) := hshows.response
    refine ⟨hshows.store, ⟨e.message, ?_⟩, ?_⟩
    · rw [← code_of_rejectIf hcheck]
      exact hfailure.tells
    · have hpath : Endpoint.ofPath? (Endpoint.pathOf request.target) = some .rules :=
        Request.Asks.endpoint hasks trivial
      have hmetrics := @metrics_handle store draws request .rules hpath
      rw [dispatch_create hasks.method, withPayload_of_ok hdecode, hobjection, List.nil_append]
        at hmetrics
      rw [hmetrics]
      simp [Metric.httpRequest, Metric.counter, Metric.histogram]

end Outcomes

/-- Whatever rules are stored, a request whose body is decoded as a name, a description and a text
is answered with 201 exactly if the name has 1 to 100 characters that are not all blank, the
description has at most 500, and the text is a rule. Then the rule has the name, the description
and the tree of the request, it was created and last changed at one time, and it is stored under
its id with nothing else changed. Otherwise nothing is stored: a name or description beyond its
limits is objected to whatever the text is, without counting a reading of rule text, and within the
limits the answer tells the code and the message of what is wrong with the text. -/
theorem creation_accepts_valid_requests (store : Store) {draws : Draws} (hid : draws.ruleId ≠ "")
    {request : Request} {payload : CreatePayload} (hasks : request.Asks "POST" "/api/rules")
    (hdecode : decodeRequest CreatePayload.decode request = .ok payload) :
    ((handle store draws request).response.status = 201 ↔
      payload.IsAdmissible ∧ ∃ expr, parse payload.ruleText = .ok expr) ∧
    (∀ expr, payload.IsAdmissible → parse payload.ruleText = .ok expr →
      ∃ rule : Rule, Creates store (handle store draws request) rule ∧ rule.id = draws.ruleId ∧
        rule.name = payload.name ∧ rule.description = payload.description ∧ rule.expr = expr ∧
        rule.createdAt = rule.updatedAt) ∧
    (¬ payload.IsAdmissible → (handle store draws request).store = store ∧
      (∃ message, (handle store draws request).response.Tells "VALIDATION_ERROR" message) ∧
      ∀ metric ∈ (handle store draws request).metrics, metric.name ≠ "rule_parses_total") ∧
    ∀ e, payload.IsAdmissible → parse payload.ruleText = .error e →
      (handle store draws request).store = store ∧
        (handle store draws request).response.Tells e.code e.message := by
  have hrefused := tells_of_not_admissible store draws hasks hdecode
  have hfailed (e : RuleError) (hadmissible : payload.IsAdmissible)
      (hparse : parse payload.ruleText = .error e) :=
    tells_of_parse_error store draws hasks hdecode hadmissible hparse
  refine ⟨⟨?_, ?_⟩, ?_, hrefused, hfailed⟩
  · intro hstatus
    have hno (code message : String) :
        ¬ (handle store draws request).response.Tells code message := by
      intro htells
      have h := hstatus.symm.trans htells.status
      split_ifs at h <;> cases h
    by_cases hadmissible : payload.IsAdmissible
    · refine ⟨hadmissible, ?_⟩
      cases hparse : parse payload.ruleText with
      | ok expr => exact ⟨expr, rfl⟩
      | error e => exact absurd (hfailed e hadmissible hparse).2 (hno e.code e.message)
    · obtain ⟨-, ⟨message, htells⟩, -⟩ := hrefused hadmissible
      exact absurd htells (hno "VALIDATION_ERROR" message)
  · rintro ⟨hadmissible, expr, hparse⟩
    exact (creates_of_parse store draws hasks hdecode hid hadmissible hparse).response.status
  · intro expr hadmissible hparse
    have hcreates := creates_of_parse store draws hasks hdecode hid hadmissible hparse
    exact ⟨_, hcreates, rfl, rfl, rfl, rfl, rfl⟩

/-- A name of one character that is not a blank, among blanks, is admitted. -/
theorem created_among_blanks :
    ∃ (draws : Draws) (request : Request), draws.ruleId = "adult" ∧
      request = .post "/api/rules" (CreatePayload.toJson ⟨" A\t", "", "age 18 >="⟩) ∧
      (handle .empty draws request).response.status = 201 := by
  have hparse : parse (CreatePayload.mk " A\t" "" "age 18 >=").ruleText =
      .ok (.comparison .atLeast "age" (.number (Double.ofInt 18))) := by decide +kernel
  have hadmissible : (CreatePayload.mk " A\t" "" "age 18 >=").IsAdmissible :=
    CreatePayload.check_eq_ok_iff.mp (by decide +kernel)
  obtain ⟨draws, hdraws⟩ : ∃ draws : Draws, draws.ruleId = "adult" :=
    ⟨⟨"adult", "request", .ofSeconds 0, .ofNat 0, 0, .ofNat 0⟩, rfl⟩
  have hid : draws.ruleId ≠ "" := by
    rw [hdraws]
    decide
  have hcarries : (Request.post "/api/rules"
      (CreatePayload.toJson ⟨" A\t", "", "age 18 >="⟩)).Carries "/api/rules" _ :=
    Request.carries_post (by decide +kernel) (by decide +kernel)
  have hdecode := decodeRequest_of_carries hcarries (CreatePayload.decode_of_scan hcarries.tokens)
  have hcreation := creation_accepts_valid_requests .empty hid ⟨hcarries.method, hcarries.path⟩
    hdecode
  exact ⟨draws, _, hdraws, rfl, hcreation.1.mpr ⟨hadmissible, _, hparse⟩⟩

end Service

end PostfixRules
