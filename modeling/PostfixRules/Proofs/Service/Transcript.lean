import PostfixRules.Proofs.Service.Run

/-!
# What a transcript tells

Whoever sees only the requests and the answers can keep a list of rules: a rule is added with the
data of the answer that tells of its creation, and struck out by an answer that tells of its
deletion. Such a list grows at its end with every further answer.
-/

namespace PostfixRules

/-- The id that the data of a rule tell. -/
def Json.ruleId? (data : Json) : Option String :=
  (data.member? "id").bind Json.text?

theorem Rule.ruleId?_toJson (rule : Rule) : rule.toJson.ruleId? = some rule.id := rfl

namespace Service

/-! ## The list of rules -/

/-- The requests of a run together with their answers. -/
def transcript (store : Store) : List Exchange → List (Request × Response)
  | [] => []
  | exchange :: rest =>
    let outcome := handle store exchange.draws exchange.request
    (exchange.request, outcome.response) :: transcript outcome.store rest

/-- The data of the rule that an answer tells to have been created. -/
def created? (request : Request) (response : Response) : Option Json :=
  if request.Asks "POST" "/api/rules" ∧ response.status = 201 then response.body.member? "data"
  else none

/-- The id of the rule that an answer tells to have been deleted. -/
def deleted? (request : Request) (response : Response) : Option String :=
  if response.status = 200 then request.deletedId? else none

/-- Whether an answer tells that the rule of some data has been deleted. -/
def strikes (data : Json) (answer : Request × Response) : Bool :=
  (deleted? answer.1 answer.2).any fun id => data.ruleId? == some id

/-- The data of the rules that were created and have not been deleted since, in the order of their
creation. -/
def live : List (Request × Response) → List Json
  | [] => []
  | answer :: later =>
    ((created? answer.1 answer.2).filter fun data => !later.any (strikes data)).toList ++ live later

/-- One more answer strikes out a rule, or adds one at the end, or does neither. -/
theorem live_concat (answers : List (Request × Response)) (answer : Request × Response) :
    live (answers ++ [answer]) = ((live answers).filter fun data => !strikes data answer) ++
      (created? answer.1 answer.2).toList := by
  induction answers with
  | nil =>
    cases hcreated : created? answer.1 answer.2 with
    | none => simp [live, hcreated]
    | some data => simp [live, hcreated]
  | cons first rest ih =>
    rw [List.cons_append, live, ih, live, List.filter_append, List.append_assoc]
    congr 1
    cases created? first.1 first.2 with
    | none => rfl
    | some data =>
      cases hlater : rest.any (strikes data) <;> cases hlast : strikes data answer <;>
        simp [Option.filter_some, List.any_append, hlater, hlast]

/-- An answer that tells of no deletion strikes nothing out. -/
theorem live_concat_of_kept (answers : List (Request × Response)) {answer : Request × Response}
    (h : deleted? answer.1 answer.2 = none) :
    live (answers ++ [answer]) = live answers ++ (created? answer.1 answer.2).toList := by
  have hkept (data : Json) : strikes data answer = false := by
    rw [strikes, h]
    rfl
  rw [live_concat]
  simp only [hkept, Bool.not_false, List.filter_true]

/-- The deletions told with one more answer that tells of none were told before. -/
theorem mem_of_deleted? {answers : List (Request × Response)} {answer other : Request × Response}
    {id : String} (h : deleted? answer.1 answer.2 = none) (hmem : other ∈ answers ++ [answer])
    (hother : deleted? other.1 other.2 = some id) : other ∈ answers := by
  rcases List.mem_append.mp hmem with hold | hnew
  · exact hold
  · rw [List.mem_singleton.mp hnew, h] at hother
    cases hother

theorem transcript_concat (store : Store) (exchanges : List Exchange) (exchange : Exchange) :
    transcript store (exchanges ++ [exchange]) = transcript store exchanges ++
      [(exchange.request,
        (handle (run store exchanges) exchange.draws exchange.request).response)] := by
  induction exchanges generalizing store with
  | nil => rfl
  | cons first rest ih =>
    rw [List.cons_append, transcript, ih, transcript, run_cons, List.cons_append]

/-! ## What an answer tells -/

theorem deleted?_eq_some_iff {request : Request} {response : Response} {id : String} :
    deleted? request response = some id ↔
      request.Names "DELETE" id ∧ response.status = 200 := by
  rw [← Request.deletedId?_eq_some_iff, deleted?]
  by_cases hstatus : response.status = 200
  · rw [if_pos hstatus, and_iff_left hstatus]
  · rw [if_neg hstatus]
    exact iff_of_false (fun h => by cases h) fun h => hstatus h.2

theorem deleted?_eq_none {request : Request} {response : Response}
    (h : ∀ id, ¬ (request.Names "DELETE" id ∧ response.status = 200)) :
    deleted? request response = none :=
  Option.eq_none_iff_forall_ne_some.mpr fun id hid => h id (deleted?_eq_some_iff.mp hid)

/-- An answer that shows a status other than 200 tells of no deletion. -/
theorem deleted?_of_shows {request : Request} {response : Response} {status : Nat}
    {data : Option Json} (h : response.Shows (.success status data)) (hstatus : status ≠ 200) :
    deleted? request response = none :=
  if_neg fun heq => hstatus (h.status.symm.trans heq)

/-- An answer that shows data tells of the creation of just these. -/
theorem created?_of_shows {request : Request} {response : Response} {data : Json}
    (hrequest : request.Asks "POST" "/api/rules")
    (h : response.Shows (.success 201 (some data))) : created? request response = some data := by
  rw [created?, if_pos ⟨hrequest, h.status⟩, h.body]
  rfl

end Service

end PostfixRules
