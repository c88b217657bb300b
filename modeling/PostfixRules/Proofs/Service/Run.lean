import Mathlib.Tactic.SplitIfs
import PostfixRules.Proofs.Service.Dispatch
import PostfixRules.Proofs.Service.Operation
import PostfixRules.Proofs.Service.Route
import PostfixRules.Proofs.Store.Coherence

/-!
# Runs of the service

A service answers one request after the other, each with ids and times of its own. A request does
one of three things to the store: it loads the rule that its answer tells, it takes out the rule
that it names, or it does nothing. Which of them it is can be told from the request and the status
of its answer. Every rule in the store has therefore been checked, whatever requests have come.
-/

namespace PostfixRules

/-- A request together with what is taken from the surroundings for it. -/
structure Exchange where
  draws : Draws
  request : Request

namespace Request

/-- The id of the rule that a request asks to be deleted. -/
def deletedId? (request : Request) : Option String :=
  if request.method = "DELETE" then
    match Endpoint.ofPath? (Endpoint.pathOf request.target) with
    | some (.rule segment) => Text.percentDecode? segment
    | _ => none
  else none

/-- A request asks for a rule to be deleted exactly if it names it for that. -/
theorem deletedId?_eq_some_iff {request : Request} {id : String} :
    request.deletedId? = some id ↔ request.Names "DELETE" id := by
  unfold deletedId?
  constructor
  · intro h
    split_ifs at h with hmethod
    split at h
    · rename_i segment hendpoint
      obtain ⟨hpath, hnamed⟩ := Endpoint.ofPath?_eq_some_iff.mp hendpoint
      exact ⟨segment, ⟨hmethod, hpath⟩, hnamed, h⟩
    · cases h
  · rintro ⟨segment, hasks, hnamed, hdecode⟩
    have hendpoint : Endpoint.ofPath? (Endpoint.pathOf request.target) = some (.rule segment) :=
      Endpoint.ofPath?_eq_some_iff.mpr ⟨hasks.path, hnamed⟩
    rw [if_pos hasks.method, hendpoint]
    exact hdecode

end Request

namespace Service

/-- The store after requests have been answered one after the other. -/
def run (store : Store) (exchanges : List Exchange) : Store :=
  exchanges.foldl (fun store exchange => (handle store exchange.draws exchange.request).store)
    store

/-! ## What one request does -/

/-- What a request may do to a store, together with what its answer says about it. -/
inductive Effect (store : Store) (draws : Draws) (request : Request) (outcome : Outcome) : Prop
  | created (rule : Rule) (hrequest : request.Asks "POST" "/api/rules")
    (hid : rule.id = draws.ruleId) (hnow : rule.createdAt = draws.now) (hne : rule.id ≠ "")
    (hsound : rule.expr.IsSound)
    (hshows : outcome.response.Shows (.success 201 (some rule.toJson)))
    (hstore : outcome.store = store.afterLoad rule)
  | deleted (id : String) (hrequest : request.Names "DELETE" id)
    (hcontains : store.contains id = true) (hshows : outcome.response.Shows (.success 200 none))
    (hstore : outcome.store = { store with entries := Keyed.erase id store.entries })
  | unchanged (hcreation : ¬ (request.Asks "POST" "/api/rules" ∧ outcome.response.status = 201))
    (hdeletion : ∀ id, ¬ (request.Names "DELETE" id ∧ outcome.response.status = 200))
    (hstore : outcome.store = store)

/-- A request to create a rule creates it or changes nothing. -/
theorem effect_creation {store : Store} {draws : Draws} {request : Request}
    (h : request.Asks "POST" "/api/rules") :
    Effect store draws request (handle store draws request) := by
  have hdeletion (id : String) : ¬ request.Names "DELETE" id := by
    rintro ⟨segment, hasks, -⟩
    exact absurd (h.method.symm.trans hasks.method) (by decide)
  have hshows := @Request.Asks.shows request "POST" .rules h trivial (by decide) store draws
  rw [dispatch_create h.method] at hshows
  cases hdecode : decodeRequest CreatePayload.decode request with
  | error reply =>
    rw [withPayload_of_error hdecode] at hshows
    obtain ⟨status, text, rfl, hstatus⟩ := exists_plain_of_decodeRequest hdecode
    refine .unchanged ?_ (fun id hid => hdeletion id hid.1) hshows.store
    rintro ⟨-, hcreated⟩
    have heq : status = 201 := hshows.response.status.symm.trans hcreated
    rw [heq] at hstatus
    exact absurd hstatus (by decide)
  | ok payload =>
    rw [withPayload_of_ok hdecode] at hshows
    rcases createRule_cases store draws payload with
      ⟨rule, metrics, hid, hnow, hne, hsound, hcreate⟩ | ⟨error, metrics, hcreate, -⟩
    · rw [hcreate] at hshows
      exact .created rule h hid hnow hne hsound hshows.response hshows.store
    · rw [hcreate] at hshows
      refine .unchanged ?_ (fun id hid => hdeletion id hid.1) hshows.store
      rintro ⟨-, hcreated⟩
      have heq : error.status = 201 := hshows.response.status.symm.trans hcreated
      cases error <;> cases heq

/-- A request to delete a rule deletes it or changes nothing. -/
theorem effect_deletion {store : Store} {draws : Draws} {request : Request} {id : String}
    (h : request.Names "DELETE" id) :
    Effect store draws request (handle store draws request) := by
  have hshows := h.shows_delete store draws
  rw [deleteRule_eq] at hshows
  by_cases hcontains : store.contains id = true
  · rw [if_pos hcontains] at hshows
    exact .deleted id h hcontains hshows.response hshows.store
  · rw [if_neg hcontains] at hshows
    refine .unchanged ?_ ?_ hshows.store
    · rintro ⟨hcreation, -⟩
      obtain ⟨segment, hasks, -⟩ := h
      exact absurd (hasks.method.symm.trans hcreation.method) (by decide)
    · rintro id' ⟨-, hdeleted⟩
      have heq : 404 = 200 := hshows.response.status.symm.trans hdeleted
      exact absurd heq (by decide)

/-- A request for neither changes nothing. -/
theorem store_handle_of_neither {store : Store} {draws : Draws} {request : Request}
    (hcreation : ¬ request.Asks "POST" "/api/rules") (hdeletion : request.deletedId? = none) :
    (handle store draws request).store = store := by
  cases hendpoint : Endpoint.ofPath? (Endpoint.pathOf request.target) with
  | none => simp only [handle, hendpoint]
  | some endpoint =>
    rw [store_handle hendpoint]
    have hcomes := comesTo_dispatch store draws request endpoint
    generalize dispatch store draws request endpoint = handled at hcomes ⊢
    cases hcomes with
    | told => rfl
    | create hpost =>
      have hpath := (Endpoint.ofPath?_eq_some_iff.mp hendpoint).1
      exact absurd ⟨hpost, hpath⟩ hcreation
    | parse => rfl
    | combine => rfl
    | evaluate => exact store_evaluateRule store draws _
    | find => rw [showRule_eq]
    | delete hdelete hdecode =>
      rw [Request.deletedId?, if_pos hdelete, hendpoint] at hdeletion
      cases hdeletion.symm.trans hdecode

/-- Every request does one of the three things. -/
theorem effect_handle (store : Store) (draws : Draws) (request : Request) :
    Effect store draws request (handle store draws request) := by
  by_cases hcreation : request.Asks "POST" "/api/rules"
  · exact effect_creation hcreation
  · cases hdeletion : request.deletedId? with
    | some id => exact effect_deletion (Request.deletedId?_eq_some_iff.mp hdeletion)
    | none =>
      refine .unchanged (fun h => hcreation h.1) ?_ (store_handle_of_neither hcreation hdeletion)
      rintro id ⟨hid, -⟩
      cases hdeletion.symm.trans (Request.deletedId?_eq_some_iff.mpr hid)

/-! ## What every run keeps -/

theorem run_cons (store : Store) (exchange : Exchange) (rest : List Exchange) :
    run store (exchange :: rest) =
      run (handle store exchange.draws exchange.request).store rest :=
  List.foldl_cons

theorem run_concat (store : Store) (exchanges : List Exchange) (exchange : Exchange) :
    run store (exchanges ++ [exchange]) =
      (handle (run store exchanges) exchange.draws exchange.request).store :=
  List.foldl_concat _ _ _ _

/-- Whatever a request does, it loads checked rules only. -/
theorem Effect.exists_reflects {store : Store} {draws : Draws} {request : Request}
    {outcome : Outcome} (h : Effect store draws request outcome) {log : List String}
    (hstore : store.Reflects log) : ∃ log', outcome.store.Reflects log' := by
  cases h with
  | created rule hrequest hid hnow hne hsound hshows heq =>
    rw [heq]
    exact ⟨_, hstore.afterLoad hne hsound⟩
  | deleted id hrequest hcontains hshows heq =>
    rw [heq]
    exact ⟨log, hstore.of_sublist List.filter_sublist⟩
  | unchanged hcreation hdeletion heq =>
    rw [heq]
    exact ⟨log, hstore⟩

/-- After every run on a fresh store, all entries are checked rules under their own ids. -/
theorem exists_reflects_run (exchanges : List Exchange) :
    ∃ log, (run .empty exchanges).Reflects log := by
  induction exchanges using List.reverseRecOn with
  | nil => exact ⟨[], Store.Reflects.empty⟩
  | append_singleton before exchange ih =>
    obtain ⟨log, hlog⟩ := ih
    rw [run_concat]
    exact (effect_handle _ exchange.draws exchange.request).exists_reflects hlog

end Service

end PostfixRules
