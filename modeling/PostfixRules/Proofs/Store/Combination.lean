import PostfixRules.Proofs.Combination.Depth
import PostfixRules.Proofs.Refusal
import PostfixRules.Proofs.Store.Coherence

/-!
# Combining stored rules

Rules are combined by their ids. An id that is not stored comes before every other reason to fail,
then that there are no ids, then the depth of the trees joined. In a store that has been used in any
way all trees are sound, so that the depth limit applies to a single rule as well and a combination
is sound. It decides a record as its rules do: it matches if they all match, and otherwise fails as
the first rule that fails.
-/

namespace PostfixRules

/-! ## Combinations of sound trees -/

/-- Leaves are sound if they are those of sound trees. -/
theorem Expr.hasSoundLeaves_foldl_logical (operator : LogicalOperator) {first : Expr}
    {rest : List Expr} (hfirst : first.HasSoundLeaves)
    (hrest : ∀ expr ∈ rest, expr.HasSoundLeaves) :
    (rest.foldl (.logical operator) first).HasSoundLeaves := by
  induction rest generalizing first with
  | nil => exact hfirst
  | cons next rest ih =>
    obtain ⟨hnext, hrest⟩ := List.forall_mem_cons.mp hrest
    exact ih ⟨hfirst, hnext⟩ hrest

/-- Sound trees are combined exactly if the trees joined are within the depth limit. A single tree
is not measured for that, but a sound one is within it. -/
theorem combine_eq_ok_iff_of_isSound {operator : LogicalOperator} {exprs : List Expr} {expr : Expr}
    (hsound : ∀ part ∈ exprs, part.IsSound) :
    combine operator exprs = .ok expr ↔ ∃ first rest, exprs = first :: rest ∧
      rest.foldl (.logical operator) first = expr ∧ expr.depth ≤ maxDepth := by
  rw [combine_eq_ok_iff]
  constructor
  · rintro ⟨first, rest, rfl, rfl, rfl | hdepth⟩
    · exact ⟨first, [], rfl, rfl, (hsound first List.mem_cons_self).depth_le⟩
    · exact ⟨first, rest, rfl, rfl, hdepth⟩
  · rintro ⟨first, rest, rfl, rfl, hdepth⟩
    exact ⟨first, rest, rfl, rfl, .inr hdepth⟩

/-- A combination of sound trees is sound. -/
theorem isSound_of_combine {operator : LogicalOperator} {exprs : List Expr} {expr : Expr}
    (hsound : ∀ part ∈ exprs, part.IsSound) (h : combine operator exprs = .ok expr) :
    expr.IsSound := by
  obtain ⟨first, rest, rfl, rfl, hdepth⟩ := (combine_eq_ok_iff_of_isSound hsound).mp h
  obtain ⟨hfirst, hrest⟩ := List.forall_mem_cons.mp hsound
  exact ⟨hdepth, Expr.hasSoundLeaves_foldl_logical operator hfirst.leaves
    fun part hpart => (hrest part hpart).leaves⟩

/-- Sound trees are refused exactly if the trees joined are beyond the depth limit. -/
theorem combine_eq_invalidNode_iff {operator : LogicalOperator} {exprs : List Expr}
    (hsound : ∀ part ∈ exprs, part.IsSound) :
    (∃ defect, combine operator exprs = .error (.invalidNode defect)) ↔ ∃ first rest,
      exprs = first :: rest ∧ maxDepth < (rest.foldl (.logical operator) first).depth := by
  constructor
  · rintro ⟨defect, h⟩
    rcases combine_eq_error h with he | ⟨first, rest, hexprs, -, hdeep⟩
    · cases he
    · exact ⟨first, rest, hexprs, hdeep⟩
  · rintro ⟨first, rest, rfl, hdeep⟩
    cases h : combine operator (first :: rest) with
    | ok expr =>
      obtain ⟨_, _, heq, rfl, hdepth⟩ := (combine_eq_ok_iff_of_isSound hsound).mp h
      cases heq
      exact absurd hdepth (Nat.not_le.mpr hdeep)
    | error e =>
      obtain ⟨⟨ordinal, depth, rfl⟩, -⟩ := combineOnto_eq_error h
      exact ⟨_, rfl⟩

namespace Store

/-! ## Finding the rules -/

/-- Whether the trees of the rules under ids are these, in the order of the ids. -/
def Holds (store : Store) (ids : List String) (exprs : List Expr) : Prop :=
  ids.map store.expr = exprs.map .ok

/-- Run the rule under an id. -/
def runRule (store : Store) (traced : Bool) (record : Record) (id : String) :
    Except RuleError Execution :=
  match store.get? id with
  | some compiled => compiled.run traced record
  | none => .error (.ruleNotFound id)

theorem holds_iff {store : Store} {ids : List String} {exprs : List Expr} :
    store.Holds ids exprs ↔ ids.mapM store.expr = .ok exprs :=
  Outcome.mapM_eq_ok_iff.symm

theorem expr_eq_ok_iff {store : Store} {id : String} {tree : Expr} :
    store.expr id = .ok tree ↔ ∃ compiled, store.get? id = some compiled ∧
      compiled.rule.expr = tree := by
  rw [expr]
  cases store.get? id <;> simp

theorem exists_expr_iff {store : Store} {id : String} :
    (∃ expr, store.expr id = .ok expr) ↔ store.contains id = true := by
  rw [expr, contains]
  cases store.get? id <;> simp

theorem expr_eq_error_iff {store : Store} {id : String} {e : RuleError} :
    store.expr id = .error e ↔ store.contains id = false ∧ e = .ruleNotFound id := by
  rw [expr, contains]
  cases store.get? id with
  | some compiled => simp
  | none => simp [eq_comm]

/-- Finding the rules under ids fails with the first id that is not stored. -/
theorem mapM_expr_eq_error_iff {store : Store} {ids : List String} {e : RuleError} :
    ids.mapM store.expr = .error e ↔ ∃ before id after, ids = before ++ id :: after ∧
      (∀ known ∈ before, store.contains known = true) ∧ store.contains id = false ∧
      e = .ruleNotFound id := by
  rw [Outcome.mapM_eq_error_iff]
  simp only [exists_expr_iff, expr_eq_error_iff]

/-- Unless a rule is not found, combining rules is combining their trees. -/
theorem combine_eq_iff_of_ne {store : Store} {ids : List String} {result : Except RuleError Expr}
    (hresult : ∀ id, result ≠ .error (.ruleNotFound id)) :
    store.combine ids = result ↔
      ∃ exprs, store.Holds ids exprs ∧ PostfixRules.combine .and exprs = result := by
  simp only [holds_iff, combine]
  cases hids : ids.mapM store.expr with
  | error e =>
    obtain ⟨before, id, after, -, -, -, rfl⟩ := mapM_expr_eq_error_iff.mp hids
    refine iff_of_false (fun h => hresult id h.symm) ?_
    rintro ⟨exprs, hexprs, -⟩
    cases hexprs
  | ok exprs =>
    constructor
    · intro h
      exact ⟨exprs, rfl, h⟩
    · rintro ⟨_, hexprs, h⟩
      cases hexprs
      exact h

/-- The verdict of a stored rule is that of its tree. -/
theorem bind_expr_evaluate (store : Store) (traced : Bool) (record : Record) (id : String) :
    (store.expr id).bind (evaluate · record) =
      (store.runRule traced record id).map fun x => x.findings.matched := by
  rw [expr, runRule]
  cases store.get? id with
  | none => rfl
  | some compiled =>
    change evaluate compiled.rule.expr record =
      (compiled.run traced record).map fun x => x.findings.matched
    rw [evaluate_eq_map_run traced, CompiledRule.run_eq_map_run]
    cases compiled.rule.expr.run traced record <;> rfl

/-! ## What a combination comes to -/

/-- A combination of the rules under ids has its verdict from running the rules one after the
other. -/
theorem evaluate_of_combine {store : Store} {ids : List String} {expr : Expr}
    (h : store.combine ids = .ok expr) (traced : Bool) (record : Record) :
    evaluate expr record = (ids.mapM fun id =>
      (store.runRule traced record id).map fun x => x.findings.matched).map (List.all · id) := by
  obtain ⟨exprs, hexprs, hcombine⟩ := Outcome.bind_eq_ok_iff.mp h
  rw [PostfixRules.evaluate_of_combine hcombine, Outcome.mapM_of_mapM_eq_ok hexprs]
  simp only [bind_expr_evaluate store traced]
  rfl

/-- How a tree decides a record: it matches if all rules under the ids do, fails with the error of
the first rule that fails, and does not match if none fails and one does not match. -/
structure DecidesAll (store : Store) (ids : List String) (expr : Expr) (traced : Bool)
    (record : Record) : Prop where
  true_iff : evaluate expr record = .ok true ↔ ∀ id ∈ ids, ∃ execution,
    store.runRule traced record id = .ok execution ∧ execution.findings.matched = true
  error_iff : ∀ e, evaluate expr record = .error e ↔ ∃ before failing after,
    ids = before ++ failing :: after ∧
    (∀ id ∈ before, ∃ execution, store.runRule traced record id = .ok execution) ∧
    store.runRule traced record failing = .error e
  false_iff : evaluate expr record = .ok false ↔
    (∀ id ∈ ids, ∃ execution, store.runRule traced record id = .ok execution) ∧
    ∃ id ∈ ids, ∃ execution, store.runRule traced record id = .ok execution ∧
      execution.findings.matched = false

/-- How combining the rules under ids ends: with the first id that is not stored; else for want of
ids; else by the depth of the trees joined from left to right; else with these. -/
structure CombinesInOrder (store : Store) (ids : List String) : Prop where
  ruleNotFound_iff : ∀ id, store.combine ids = .error (.ruleNotFound id) ↔
    ∃ before after, ids = before ++ id :: after ∧
      (∀ known ∈ before, store.contains known = true) ∧ store.contains id = false
  emptyRuleSet_iff : store.combine ids = .error .emptyRuleSet ↔ ids = []
  invalidNode_iff : (∃ defect, store.combine ids = .error (.invalidNode defect)) ↔
    ∃ first rest, store.Holds ids (first :: rest) ∧
      100 < (rest.foldl (.logical .and) first).depth
  ok_iff : ∀ expr, store.combine ids = .ok expr ↔ ∃ first rest, store.Holds ids (first :: rest) ∧
    rest.foldl (.logical .and) first = expr ∧ expr.depth ≤ 100
  /-- What is returned passes the check, wherever it may stand in a larger tree. -/
  valid : ∀ expr, store.combine ids = .ok expr → ∀ path, validate expr path = .ok ()
  decidesAll : ∀ expr, store.combine ids = .ok expr → ∀ traced record,
    store.DecidesAll ids expr traced record

/-- A combination decides a record as its rules do. -/
theorem decidesAll_of_combine {store : Store} {ids : List String} {expr : Expr}
    (h : store.combine ids = .ok expr) (traced : Bool) (record : Record) :
    store.DecidesAll ids expr traced record where
  true_iff := by
    rw [evaluate_of_combine h traced, Outcome.map_all_eq_true_iff]
    simp only [Outcome.map_eq_ok_iff]
  error_iff := by
    intro e
    rw [evaluate_of_combine h traced, Outcome.map_eq_error_iff, Outcome.mapM_eq_error_iff]
    simp only [Outcome.exists_map_eq_ok_iff, Outcome.map_eq_error_iff]
  false_iff := by
    rw [evaluate_of_combine h traced, Outcome.map_all_eq_false_iff]
    refine and_congr ?_ ?_
    · simp only [Outcome.exists_map_eq_ok_iff]
    · simp only [Outcome.map_eq_ok_iff]

namespace Reflects

variable {store : Store} {log : List String} {ids : List String} {exprs : List Expr}

/-- All trees found in a store that reflects a log are sound. -/
theorem isSound_of_holds (h : store.Reflects log) (hholds : store.Holds ids exprs) :
    ∀ expr ∈ exprs, expr.IsSound := by
  intro expr hexpr
  obtain ⟨id, -, hid⟩ := (Outcome.mem_iff_of_mapM_eq_ok (holds_iff.mp hholds)).mp hexpr
  obtain ⟨compiled, hget, rfl⟩ := expr_eq_ok_iff.mp hid
  exact (h.isEntry_of_get? hget).sound

/-- A store that reflects a log combines the rules under any ids in this order. -/
theorem combinesInOrder (h : store.Reflects log) (ids : List String) :
    store.CombinesInOrder ids where
  ruleNotFound_iff := by
    intro id
    constructor
    · intro hcombine
      rcases Outcome.bind_eq_error_iff.mp hcombine with hids | ⟨exprs, -, hexprs⟩
      · obtain ⟨before, missing, after, rfl, hbefore, hmissing, hid⟩ :=
          mapM_expr_eq_error_iff.mp hids
        cases hid
        exact ⟨before, after, rfl, hbefore, hmissing⟩
      · rcases PostfixRules.combine_eq_error hexprs with he | ⟨first, rest, -, ⟨_, _, he⟩, -⟩
        · cases he
        · cases he
    · rintro ⟨before, after, rfl, hbefore, hmissing⟩
      exact Outcome.bind_eq_error_iff.mpr (.inl (mapM_expr_eq_error_iff.mpr
        ⟨before, id, after, rfl, hbefore, hmissing, rfl⟩))
  emptyRuleSet_iff := by
    rw [combine_eq_iff_of_ne (by simp)]
    simp only [combine_eq_emptyRuleSet_iff]
    constructor
    · rintro ⟨exprs, hholds, rfl⟩
      exact List.map_eq_nil_iff.mp hholds
    · rintro rfl
      exact ⟨[], rfl, rfl⟩
  invalidNode_iff := by
    constructor
    · rintro ⟨defect, hcombine⟩
      obtain ⟨exprs, hholds, hexprs⟩ := (combine_eq_iff_of_ne (by simp)).mp hcombine
      obtain ⟨first, rest, rfl, hdeep⟩ :=
        (combine_eq_invalidNode_iff (h.isSound_of_holds hholds)).mp ⟨defect, hexprs⟩
      exact ⟨first, rest, hholds, hdeep⟩
    · rintro ⟨first, rest, hholds, hdeep⟩
      obtain ⟨defect, hexprs⟩ :=
        (combine_eq_invalidNode_iff (h.isSound_of_holds hholds)).mpr ⟨first, rest, rfl, hdeep⟩
      exact ⟨defect, (combine_eq_iff_of_ne (by simp)).mpr ⟨_, hholds, hexprs⟩⟩
  ok_iff := by
    intro expr
    rw [combine_eq_iff_of_ne (by simp)]
    constructor
    · rintro ⟨exprs, hholds, hexprs⟩
      obtain ⟨first, rest, rfl, hfold, hdepth⟩ :=
        (combine_eq_ok_iff_of_isSound (h.isSound_of_holds hholds)).mp hexprs
      exact ⟨first, rest, hholds, hfold, hdepth⟩
    · rintro ⟨first, rest, hholds, hfold, hdepth⟩
      exact ⟨_, hholds, (combine_eq_ok_iff_of_isSound (h.isSound_of_holds hholds)).mpr
        ⟨first, rest, rfl, hfold, hdepth⟩⟩
  valid := by
    intro expr hcombine path
    obtain ⟨exprs, hholds, hexprs⟩ := (combine_eq_iff_of_ne (by simp)).mp hcombine
    exact validate_eq_ok_iff.mpr (isSound_of_combine (h.isSound_of_holds hholds) hexprs)
  decidesAll := fun _ => decidesAll_of_combine

end Reflects

/-- After any run, combining the rules under any ids, with repetitions or without, ends in this
order, and a combination is sound and decides every record as running its rules does. -/
theorem run_combines_in_order (operations : List Operation) (ids : List String) :
    (empty.run operations).CombinesInOrder ids :=
  (Reflects.empty.run operations).combinesInOrder ids

/-- Two rules, one of which is combined twice, and then combined with rules that are not there. -/
example : let store := empty.run [.create "a" (.ofSeconds 0) "" "" "age 18 >=",
      .create "b" (.ofSeconds 0) "" "" "dept hr ="]
    (store.combine ["b", "a", "b"]).map Expr.text = .ok "dept hr = age 18 >= AND dept hr = AND" ∧
    store.combine ["b", "y", "a", "x"] = .error (.ruleNotFound "y") ∧
    store.combine [] = .error .emptyRuleSet := by
  decide +kernel

end Store

end PostfixRules
