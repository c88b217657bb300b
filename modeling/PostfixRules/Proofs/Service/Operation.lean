import PostfixRules.Proofs.Expr.Decoding
import PostfixRules.Proofs.Refusal
import PostfixRules.Proofs.Service.Answer
import PostfixRules.Proofs.Store

/-!
# What an operation replies

Every operation either succeeds or fails with one of few codes. Creating a rule is the only one that
loads a rule, deleting a rule is the only one that takes one out, and each says so in its reply; no
other operation, and none that fails, changes the store.
-/

namespace PostfixRules

/-- Whether a reply is a success, or else a failure with one of these codes. -/
def Reply.FailsOnlyWith (reply : Reply) (codes : List String) : Prop :=
  (∃ status data, reply = .success status data) ∨
    ∃ error, error.code ∈ codes ∧ reply = .failure error

theorem Reply.failsOnlyWith_ofResult {α : Type} {status : Nat} {toJson : α → Json}
    {result : Except RuleError α} {codes : List String}
    (h : ∀ e, result = .error e → e.code ∈ codes) :
    (ofResult status toJson result).FailsOnlyWith codes := by
  cases result with
  | ok value => exact .inl ⟨status, _, rfl⟩
  | error e => exact .inr ⟨e, h e rfl, rfl⟩

theorem Reply.FailsOnlyWith.mono {reply : Reply} {codes codes' : List String}
    (h : reply.FailsOnlyWith codes) (hsubset : codes ⊆ codes') : reply.FailsOnlyWith codes' := by
  rcases h with hsuccess | ⟨error, hcode, hreply⟩
  · exact .inl hsuccess
  · exact .inr ⟨error, hsubset hcode, hreply⟩

theorem Reply.FailsOnlyWith.code_mem {reply : Reply} {codes : List String} {error : RuleError}
    (h : reply.FailsOnlyWith codes) (hreply : reply = .failure error) : error.code ∈ codes := by
  rcases h with ⟨status, data, rfl⟩ | ⟨error', hcode, rfl⟩
  · cases hreply
  · cases hreply
    exact hcode

/-- A request is objected to with one code. -/
theorem code_of_rejectIf {objections : List (String × List Objection)} {e : RuleError}
    (h : rejectIf objections = .error e) : e.code = "VALIDATION_ERROR" := by
  unfold rejectIf at h
  dsimp only at h
  split at h
  · cases h
  · cases h
    rfl

namespace Service

variable {store : Store} {draws : Draws}

/-- A request to which there are objections is answered with them. -/
theorem createRule_of_objection (store : Store) (draws : Draws) {payload : CreatePayload}
    {e : RuleError} (hcheck : payload.check = .error e) :
    createRule store draws payload = ⟨store, .failure e, []⟩ := by
  unfold createRule
  rw [hcheck]

/-- A request to which there is no objection is answered with what the store creates. -/
theorem createRule_of_check (store : Store) (draws : Draws) {payload : CreatePayload}
    {result : Except RuleError Rule} {store' : Store} (hcheck : payload.check = .ok ())
    (hcreate : store.create draws.ruleId draws.now payload.name payload.description
      payload.ruleText = (result, store')) :
    createRule store draws payload =
      ⟨store', .ofResult 201 Rule.toJson result, Metric.ruleParse (outcomeLabel result)⟩ := by
  unfold createRule
  rw [hcheck]
  dsimp only
  rw [hcreate]

/-- A rule is created under the drawn id at the present time, or the reply is a failure and the
store is as it was. -/
theorem createRule_cases (store : Store) (draws : Draws) (payload : CreatePayload) :
    (∃ rule metrics, rule.id = draws.ruleId ∧ rule.createdAt = draws.now ∧ rule.id ≠ "" ∧
      rule.expr.IsSound ∧ createRule store draws payload =
        ⟨store.afterLoad rule, .success 201 (some rule.toJson), metrics⟩) ∨
    ∃ error metrics, createRule store draws payload = ⟨store, .failure error, metrics⟩ ∧
      error.code ∈ ["VALIDATION_ERROR", "EMPTY_INPUT", "MALFORMED_EXPRESSION",
        "STACK_UNDERFLOW"] := by
  cases hcheck : payload.check with
  | error e =>
    refine .inr ⟨e, [], createRule_of_objection store draws hcheck, ?_⟩
    rw [code_of_rejectIf hcheck]
    exact List.mem_cons_self
  | ok u =>
    cases hparse : parse payload.ruleText with
    | error e =>
      have hcreate := store.create_of_parse_error draws.ruleId draws.now payload.name
        payload.description hparse
      exact .inr ⟨e, _, createRule_of_check store draws hcheck hcreate, List.mem_cons_of_mem _
        (RuleError.code_mem_of_isParseError (isParseError_of_parse hparse))⟩
    | ok expr =>
      by_cases hid : draws.ruleId = ""
      · have hcreate := store.create_of_no_id draws.now payload.name payload.description hparse
        rw [← hid] at hcreate
        exact .inr ⟨.validation (.single .emptyRuleId), _,
          createRule_of_check store draws hcheck hcreate, List.mem_cons_self⟩
      · have hcreate := store.create_of_parse_ok hid draws.now payload.name payload.description
          hparse
        exact .inl ⟨_, _, rfl, rfl, hid, (isCanonical_of_parse hparse).isSound,
          createRule_of_check store draws hcheck hcreate⟩

/-- A rule that is there is taken out, and otherwise the id is not found. -/
theorem deleteRule_eq (store : Store) (id : String) :
    deleteRule store id =
      if store.contains id then
        ⟨{ store with entries := Keyed.erase id store.entries }, .success 200 none, []⟩
      else ⟨store, .failure (.ruleNotFound id), []⟩ := by
  unfold deleteRule Store.delete
  cases store.contains id <;> rfl

theorem showRule_eq (store : Store) (id : String) :
    showRule store id = ⟨store, match store.get? id with
      | some compiled => .success 200 (some compiled.rule.toJson)
      | none => .failure (.ruleNotFound id), []⟩ := by
  unfold showRule
  cases store.get? id <;> rfl

/-- A submission is run as the tree that it is admitted as, whatever rules are stored. -/
theorem runPayload_submission (store : Store) {payload : EvaluatePayload} {form : Json}
    (h : payload.ast = some form) : runPayload store payload =
      (Expr.admitted form).bind fun expr => expr.run payload.traced ⟨payload.data⟩ := by
  simp only [runPayload, Expr.admitted, h]
  cases Expr.decode form with
  | error e => rfl
  | ok expr => cases hvalid : validate expr rootPath <;> simp only [Except.bind, Except.map, hvalid]

theorem store_evaluateRule (store : Store) (draws : Draws) (payload : EvaluatePayload) :
    (evaluateRule store draws payload).store = store := by
  unfold evaluateRule
  cases payload.check <;> rfl

end Service

end PostfixRules
