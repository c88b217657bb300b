import PostfixRules.Proofs.Combination
import PostfixRules.Proofs.Outcome
import PostfixRules.Proofs.Verdict
import PostfixRules.Store

/-!
# What operations fail with

An operation of the engine can only fail for what it looks at. Reading rule text fails with an error
of reading. Combining stored rules fails because there are none, because one is not found, or
because the trees are too deep together. Running a sound tree fails with an error that lies in the
data.
-/

namespace PostfixRules

/-! ## Reading rule text -/

namespace Builder

theorem isParseError_of_reduceLogical {operator : LogicalOperator} {token : Token}
    {stack : List Slot} {e : RuleError} (h : reduceLogical operator token stack = .error e) :
    e.isParseError = true := by
  revert h
  fun_cases reduceLogical operator token stack with
  | case2 =>
    intro h
    cases h
  | case1 | case3 | case4 =>
    intro h
    cases h
    rfl

theorem isParseError_of_reduceComparison {operator : ComparisonOperator} {token : Token}
    {stack : List Slot} {e : RuleError} (h : reduceComparison operator token stack = .error e) :
    e.isParseError = true := by
  revert h
  fun_cases reduceComparison operator token stack with
  | case5 =>
    intro h
    cases h
  | case1 | case2 | case3 | case4 | case6 =>
    intro h
    cases h
    rfl

/-- Taking a word fails with an error of reading. -/
theorem isParseError_of_push {b : Builder} {token : Token} {e : RuleError}
    (h : b.push token = .error e) : e.isParseError = true := by
  have hreact := Outcome.map_eq_error_iff.mp h
  unfold react at hreact
  split at hreact
  · exact isParseError_of_reduceLogical hreact
  · split at hreact
    · exact isParseError_of_reduceComparison hreact
    · cases hreact

theorem isParseError_of_finish {b : Builder} {e : RuleError} (h : b.finish = .error e) :
    e.isParseError = true := by
  unfold finish at h
  split at h
  · cases h
  · cases h
    rfl
  · cases h
    rfl

end Builder

/-- Rule text is refused with an error of reading. -/
theorem isParseError_of_parse {text : String} {e : RuleError} (h : parse text = .error e) :
    e.isParseError = true := by
  rcases Outcome.bind_eq_error_iff.mp h with htokens | ⟨tokens, -, hparse⟩
  · unfold tokenize at htokens
    dsimp only at htokens
    split at htokens
    · cases htokens
      rfl
    · cases htokens
  · rcases Outcome.bind_eq_error_iff.mp hparse with hpush | ⟨b, -, hfinish⟩
    · obtain ⟨b, token, hstep⟩ := Outcome.exists_of_foldlM_eq_error hpush
      exact Builder.isParseError_of_push hstep
    · exact Builder.isParseError_of_finish hfinish

/-- The codes of the errors of reading. -/
theorem RuleError.code_mem_of_isParseError {e : RuleError} (h : e.isParseError = true) :
    e.code ∈ ["EMPTY_INPUT", "MALFORMED_EXPRESSION", "STACK_UNDERFLOW"] := by
  cases e with
  | emptyInput | malformed reason position | stackUnderflow token position => simp [code]
  | _ => cases h

/-! ## Combining stored rules -/

namespace Store

theorem eq_ruleNotFound_of_expr {store : Store} {id : String} {e : RuleError}
    (h : store.expr id = .error e) : e = .ruleNotFound id := by
  unfold expr at h
  split at h
  · cases h
  · cases h
    rfl

/-- Combining stored rules fails because none are given, because one is not there, or because
joined from left to right they make a tree that is too deep. -/
theorem combine_eq_error {store : Store} {ids : List String} {e : RuleError}
    (h : store.combine ids = .error e) :
    e = .emptyRuleSet ∨ (∃ id ∈ ids, e = .ruleNotFound id) ∨
      (∃ ordinal depth, e = .invalidNode (.combinedTooDeep ordinal depth)) ∧
      ∃ first rest, ids.mapM store.expr = .ok (first :: rest) ∧
        maxDepth < (rest.foldl (.logical .and) first).depth := by
  rcases Outcome.bind_eq_error_iff.mp h with hids | ⟨exprs, hexprs, hcombine⟩
  · obtain ⟨id, hmem, hid⟩ := Outcome.exists_of_mapM_eq_error hids
    exact .inr (.inl ⟨id, hmem, eq_ruleNotFound_of_expr hid⟩)
  · rcases PostfixRules.combine_eq_error hcombine with hempty | ⟨first, rest, rfl, hnode, hdeep⟩
    · exact .inl hempty
    · exact .inr (.inr ⟨hnode, first, rest, hexprs, hdeep⟩)

end Store

/-! ## Running -/

/-- A stored rule with a sound tree fails only for the data. -/
theorem CompiledRule.isDataError_of_run {traced : Bool} {compiled : CompiledRule} {record : Record}
    {e : RuleError} (hsound : compiled.rule.expr.IsSound)
    (h : compiled.run traced record = .error e) : e.IsDataError :=
  isDataError_of_execute hsound (Outcome.map_eq_error_iff.mp h)

end PostfixRules
