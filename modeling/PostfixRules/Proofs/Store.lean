import PostfixRules.Proofs.Keyed
import PostfixRules.Proofs.Validation
import PostfixRules.Store

/-!
# Loading rules

A rule with an id and a sound tree passes the compiler's check; loading it puts it under its id with
the next version. Every other rule is refused, and then the store stays as it was. The two other
ways into the store, rule text and JSON documents, load the rule that they denote. A rule made of
accepted rule text is always sound, so creating it with an id succeeds.
-/

namespace PostfixRules

/-- A sound rule with an id compiles and takes the next version. -/
theorem Compiler.compile_eq_ok {compiler : Compiler} {rule : Rule} (hid : rule.id ≠ "")
    (hsound : rule.expr.IsSound) :
    compiler.compile rule =
      .ok (⟨rule, rule.expr.requiredFields, compiler.version + 1⟩, ⟨compiler.version + 1⟩) := by
  have hempty : rule.id.isEmpty = false := by simpa using hid
  rw [compile, hempty, if_neg (by decide), validate_eq_ok_iff.mpr hsound]

/-- Only sound rules with an id compile. -/
theorem Compiler.exists_compile_eq_error {compiler : Compiler} {rule : Rule}
    (h : ¬ (rule.id ≠ "" ∧ rule.expr.IsSound)) : ∃ e, compiler.compile rule = .error e := by
  rw [compile]
  by_cases hid : rule.id = ""
  · exact ⟨_, if_pos (by rw [hid]; rfl)⟩
  · have hempty : rule.id.isEmpty = false := by simpa using hid
    rw [hempty, if_neg (by decide)]
    cases hvalid : validate rule.expr rootPath with
    | error e => exact ⟨e, rfl⟩
    | ok u => exact absurd ⟨hid, validate_eq_ok_iff.mp hvalid⟩ h

/-- What compiles, and what it compiles to. -/
theorem Compiler.compile_eq_ok_iff {compiler compiler' : Compiler} {rule : Rule}
    {compiled : CompiledRule} :
    compiler.compile rule = .ok (compiled, compiler') ↔ rule.id ≠ "" ∧ rule.expr.IsSound ∧
      compiled = ⟨rule, rule.expr.requiredFields, compiler.version + 1⟩ ∧
      compiler' = ⟨compiler.version + 1⟩ := by
  constructor
  · intro h
    by_cases hrule : rule.id ≠ "" ∧ rule.expr.IsSound
    · rw [compile_eq_ok hrule.1 hrule.2] at h
      cases h
      exact ⟨hrule.1, hrule.2, rfl, rfl⟩
    · obtain ⟨e, he⟩ := exists_compile_eq_error hrule
      rw [he] at h
      cases h
  · rintro ⟨hid, hsound, rfl, rfl⟩
    exact compile_eq_ok hid hsound

namespace Store

/-- What was inserted is found under its id. -/
theorem get?_insert (store : Store) {compiled : CompiledRule} {id : String}
    (hid : compiled.rule.id = id) : (store.insert compiled).get? id = some compiled := by
  rw [get?, insert, Keyed.lookup_put, if_pos hid.symm]

/-- The compiled rule that loading a rule makes of it. -/
def compiledNext (store : Store) (rule : Rule) : CompiledRule :=
  ⟨rule, rule.expr.requiredFields, store.compiler.version + 1⟩

/-- The store after a rule has been loaded. -/
def afterLoad (store : Store) (rule : Rule) : Store :=
  insert ⟨store.entries, ⟨store.compiler.version + 1⟩⟩ (store.compiledNext rule)

theorem entries_afterLoad (store : Store) (rule : Rule) :
    (store.afterLoad rule).entries = Keyed.put rule.id (store.compiledNext rule) store.entries :=
  rfl

theorem compiler_afterLoad (store : Store) (rule : Rule) :
    (store.afterLoad rule).compiler = ⟨store.compiler.version + 1⟩ := rfl

theorem get?_afterLoad (store : Store) (rule : Rule) :
    (store.afterLoad rule).get? rule.id = some (store.compiledNext rule) :=
  get?_insert _ rfl

/-- A loaded rule is found under its id, and everything else is as before. -/
theorem get?_afterLoad_eq_ite (store : Store) (rule : Rule) (id : String) :
    (store.afterLoad rule).get? id =
      if id = rule.id then some (store.compiledNext rule) else store.get? id := by
  rw [get?, entries_afterLoad, Keyed.lookup_put, get?]

/-- A sound rule with an id is loaded. -/
theorem load_eq_ok {store : Store} {rule : Rule} (hid : rule.id ≠ "")
    (hsound : rule.expr.IsSound) : store.load rule = (.ok (), store.afterLoad rule) := by
  simp only [load, compile, Compiler.compile_eq_ok hid hsound]
  rfl

/-- Loading succeeds for sound rules with an id and changes nothing otherwise. -/
theorem load_cases (store : Store) (rule : Rule) :
    (rule.id ≠ "" ∧ rule.expr.IsSound ∧ store.load rule = (.ok (), store.afterLoad rule)) ∨
      ∃ e, store.load rule = (.error e, store) := by
  by_cases h : rule.id ≠ "" ∧ rule.expr.IsSound
  · exact .inl ⟨h.1, h.2, load_eq_ok h.1 h.2⟩
  · obtain ⟨e, he⟩ := @Compiler.exists_compile_eq_error store.compiler rule h
    refine .inr ⟨e, ?_⟩
    simp only [load, compile, he]

/-- Loading a document loads the rule that it denotes and tells its id. -/
theorem loadText_cases (store : Store) (now : Timestamp) (document : String) :
    (∃ rule, Rule.ofText now document = .ok rule ∧ rule.id ≠ "" ∧ rule.expr.IsSound ∧
      store.loadText now document = (.ok rule.id, store.afterLoad rule)) ∨
      ∃ e, store.loadText now document = (.error e, store) := by
  cases hrule : Rule.ofText now document with
  | error fault =>
    refine .inr ⟨.json fault, ?_⟩
    simp only [loadText, hrule]
  | ok rule =>
    rcases store.load_cases rule with ⟨hid, hsound, hload⟩ | ⟨e, hload⟩
    · refine .inl ⟨rule, rfl, hid, hsound, ?_⟩
      simp only [loadText, hrule, hload]
    · refine .inr ⟨e, ?_⟩
      simp only [loadText, hrule, hload]

/-- Text that is not accepted is not made a rule of. -/
theorem create_of_parse_error (store : Store) (id : String) (now : Timestamp)
    (name description : String) {text : String} {e : RuleError} (hparse : parse text = .error e) :
    store.create id now name description text = (.error e, store) := by
  simp only [create, hparse]

/-- Without an id no rule is created, whatever its text. -/
theorem create_of_no_id (store : Store) (now : Timestamp) (name description : String)
    {text : String} {expr : Expr} (hparse : parse text = .ok expr) :
    store.create "" now name description text =
      (.error (.validation (.single .emptyRuleId)), store) := by
  simp only [create, hparse]
  rfl

/-- With an id a rule of accepted text is created, that is, it is loaded under the id. -/
theorem create_of_parse_ok (store : Store) {id : String} (hid : id ≠ "") (now : Timestamp)
    (name description : String) {text : String} {expr : Expr} (hparse : parse text = .ok expr) :
    store.create id now name description text =
      (.ok (Rule.create id now name description expr),
        store.afterLoad (Rule.create id now name description expr)) := by
  have hsound : (Rule.create id now name description expr).expr.IsSound :=
    (isCanonical_of_parse hparse).isSound
  have hload := @load_eq_ok store (Rule.create id now name description expr) hid hsound
  simp only [create, hparse, hload]

/-- Creating a rule loads it under the id drawn for it. -/
theorem create_cases (store : Store) (id : String) (now : Timestamp)
    (name description text : String) :
    (∃ rule, rule.id = id ∧ id ≠ "" ∧ rule.expr.IsSound ∧
      store.create id now name description text = (.ok rule, store.afterLoad rule)) ∨
      ∃ e, store.create id now name description text = (.error e, store) := by
  cases hparse : parse text with
  | error e => exact .inr ⟨e, store.create_of_parse_error id now name description hparse⟩
  | ok expr =>
    by_cases hid : id = ""
    · subst hid
      exact .inr ⟨_, store.create_of_no_id now name description hparse⟩
    · exact .inl ⟨_, rfl, hid, (isCanonical_of_parse hparse).isSound,
        store.create_of_parse_ok hid now name description hparse⟩

end Store

end PostfixRules
