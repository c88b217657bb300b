import PostfixRules.Proofs.RequiredFields
import PostfixRules.Proofs.Store
import PostfixRules.Proofs.Verdict

/-!
# A rule reads its required fields

What a compiled rule finds out depends on its required fields and on nothing else in the record, and
of the value of a field it sees no more than its surface: the inside of an array or of an object
makes no difference. In return every required field is needed. Both sides of every logical node are
decided, so that no comparison can be passed over, and a field that is absent always ends the run
with an error. The errors of a compiled rule all name one of its required fields.
-/

namespace PostfixRules

/-- What a comparison sees of a value: all of it, except for what is inside arrays and objects. -/
def Json.surface : Json → Json
  | .array _ => .array []
  | .object _ => .object []
  | value => value

/-- Two records give a field the same value as far as comparisons can see, or neither has the field.
Values that are the same have the same surface. -/
def Record.Agrees (record record' : Record) (field : String) : Prop :=
  (record.field? field).map Json.surface = (record'.field? field).map Json.surface

/-- The field whose value is at fault. -/
def RuleError.dataField? : RuleError → Option String
  | .missingField field => some field
  | .typeMismatch _ field _ _ => some field
  | _ => none

theorem RuleError.IsDataError.exists_dataField? {e : RuleError} (h : e.IsDataError) :
    ∃ field, e.dataField? = some field := by
  cases e with
  | missingField field => exact ⟨field, rfl⟩
  | typeMismatch operator field expected actual => exact ⟨field, rfl⟩
  | _ => cases h

/-! ## Comparisons -/

namespace Condition

theorem verdict_map_surface (field : String) (actual : Option Json)
    (operator : ComparisonOperator) (expected : Literal) :
    verdict field (actual.map Json.surface) operator expected =
      verdict field actual operator expected := by
  cases actual with
  | none => rfl
  | some value => cases value <;> cases expected <;> rfl

/-- Without a value there is no verdict. -/
theorem exists_verdict_none_eq_error (field : String) (operator : ComparisonOperator)
    (expected : Literal) : ∃ e, verdict field none operator expected = .error e := by
  rw [verdict]
  cases check field expected with
  | error e => exact ⟨e, rfl⟩
  | ok u => exact ⟨_, rfl⟩

theorem dataField?_of_check {field : String} {expected : Literal} {e : RuleError}
    (h : check field expected = .error e) : e.dataField? = none := by
  rcases check_eq_error h with rfl | ⟨x, rfl⟩
  · rfl
  · rfl

/-- A comparison finds fault with the value of its own field only. -/
theorem eq_of_verdict_eq_error {field name : String} {actual : Option Json}
    {operator : ComparisonOperator} {expected : Literal} {e : RuleError}
    (h : verdict field actual operator expected = .error e) (hname : e.dataField? = some name) :
    name = field := by
  unfold verdict at h
  cases hcheck : check field expected with
  | error e' =>
    rw [hcheck] at h
    cases h
    rw [dataField?_of_check hcheck] at hname
    cases hname
  | ok u =>
    rw [hcheck] at h
    cases actual with
    | none =>
      cases h
      exact (Option.some.inj hname).symm
    | some value =>
      dsimp only at h
      split_ifs at h
      split at h
      · cases h
      · cases h
        exact (Option.some.inj hname).symm

end Condition

/-! ## Trees -/

/-- Records that agree on the fields of a tree make no difference to its run. -/
theorem runAt_congr {record record' : Record} {expr : Expr}
    (h : ∀ field ∈ expr.fields, record.Agrees record' field) (traced : Bool) (path : String)
    (level : Nat) : runAt record traced path level expr = runAt record' traced path level expr := by
  induction expr generalizing path level with
  | comparison operator field value =>
    have hfield : record.Agrees record' field := h field List.mem_cons_self
    rw [runAt, runAt, ← Condition.verdict_map_surface, hfield, Condition.verdict_map_surface]
  | logical operator left right ihl ihr =>
    have hl := ihl fun field hf => h field (List.mem_append_left _ hf)
    have hr := ihr fun field hf => h field (List.mem_append_right _ hf)
    rw [runAt_logical, runAt_logical, hl, hr]

/-- A tree with a field that is absent does not run: if it is a field of the right side, the run may
fail on the left side already. -/
theorem exists_runAt_eq_error {record : Record} {field : String}
    (habsent : record.field? field = none) {expr : Expr} (hfield : field ∈ expr.fields)
    (traced : Bool) (path : String) (level : Nat) :
    ∃ e, runAt record traced path level expr = .error e := by
  induction expr generalizing path level with
  | comparison operator field' value =>
    obtain rfl : field = field' := List.mem_singleton.mp hfield
    rw [runAt, habsent]
    split_ifs
    · exact ⟨_, rfl⟩
    · obtain ⟨e, he⟩ := Condition.exists_verdict_none_eq_error field operator value
      exact ⟨e, Outcome.map_eq_error_iff.mpr he⟩
  | logical operator left right ihl ihr =>
    rw [runAt_logical]
    split_ifs
    · exact ⟨_, rfl⟩
    · rcases List.mem_append.mp hfield with hleft | hright
      · obtain ⟨e, he⟩ := ihl hleft (path ++ ".left") (level + 1)
        exact ⟨e, by rw [he]; rfl⟩
      · obtain ⟨e, he⟩ := ihr hright (path ++ ".right") (level + 1)
        cases runAt record traced (path ++ ".left") (level + 1) left with
        | error e' => exact ⟨e', rfl⟩
        | ok l => exact ⟨e, Outcome.map_eq_error_iff.mpr he⟩

/-- A run finds fault with the values of the tree's fields only. -/
theorem mem_fields_of_runAt {record : Record} {traced : Bool} {path : String} {level : Nat}
    {expr : Expr} {e : RuleError} (h : runAt record traced path level expr = .error e)
    {name : String} (hname : e.dataField? = some name) : name ∈ expr.fields := by
  induction expr generalizing path level with
  | comparison operator field value =>
    rw [runAt] at h
    split_ifs at h
    · cases h
      cases hname
    · exact List.mem_singleton.mpr
        (Condition.eq_of_verdict_eq_error (Outcome.map_eq_error_iff.mp h) hname)
  | logical operator left right ihl ihr =>
    rw [runAt_logical] at h
    split_ifs at h
    · cases h
      cases hname
    · cases hl : runAt record traced (path ++ ".left") (level + 1) left with
      | error e' =>
        rw [hl] at h
        cases h
        exact List.mem_append_left _ (ihl hl)
      | ok l =>
        rw [hl] at h
        exact List.mem_append_right _ (ihr (Outcome.map_eq_error_iff.mp h))

/-! ## Compiled rules -/

/-- A compiled rule gives the same answer on records that agree on its required fields; it fails
whenever one of them is absent; and whenever it fails, the value of one of them is at fault. -/
theorem run_reads_required_fields {compiler compiler' : Compiler} {rule : Rule}
    {compiled : CompiledRule} (h : compiler.compile rule = .ok (compiled, compiler'))
    (traced : Bool) :
    (∀ record record' : Record,
      (∀ field ∈ compiled.requiredFields, record.Agrees record' field) →
      compiled.run traced record = compiled.run traced record') ∧
    (∀ field ∈ compiled.requiredFields, ∀ record : Record, record.field? field = none →
      ∃ e, compiled.run traced record = .error e) ∧
    ∀ record e, compiled.run traced record = .error e →
      ∃ field ∈ compiled.requiredFields, e.dataField? = some field := by
  obtain ⟨-, hsound, rfl, -⟩ := Compiler.compile_eq_ok_iff.mp h
  refine ⟨?_, ?_, ?_⟩
  · intro record record' hagrees
    have hexecute : execute traced rule.expr record = execute traced rule.expr record' :=
      runAt_congr (fun field hf => hagrees field (Expr.mem_requiredFields.mpr hf)) traced _ 1
    rw [CompiledRule.run, CompiledRule.run, hexecute]
  · intro field hfield record habsent
    obtain ⟨e, he⟩ :=
      exists_runAt_eq_error habsent (Expr.mem_requiredFields.mp hfield) traced rootPath 1
    exact ⟨e, Outcome.map_eq_error_iff.mpr he⟩
  · intro record e hrun
    have hexecute : execute traced rule.expr record = .error e := Outcome.map_eq_error_iff.mp hrun
    obtain ⟨field, hname⟩ := (isDataError_of_execute hsound hexecute).exists_dataField?
    exact ⟨field, Expr.mem_requiredFields.mpr (mem_fields_of_runAt hexecute hname), hname⟩

/-- Two records that differ inside an array and in a field that is not required get the same answer,
and with a required field set to the null value the rule fails. -/
theorem run_reads_required_fields_tags :
    ∃ compiled : CompiledRule, compiled.requiredFields = ["age", "tags"] ∧
      compiled.run true (.ofPairs [("age", .ofInt 30), ("tags", .array [.string "new"])]) =
        compiled.run true (.ofPairs [("tags", .array []), ("city", .null), ("age", .ofInt 30)]) ∧
      ∃ e, compiled.run true (.ofPairs [("age", .ofInt 30), ("tags", .null)]) = .error e := by
  obtain ⟨rule, hid, hexpr⟩ : ∃ rule : Rule, rule.id = "adult" ∧
      rule.expr = .logical .or (.comparison .equal "tags" (.string "new"))
        (.comparison .atLeast "age" (.number (Double.ofInt 18))) :=
    ⟨.create "adult" (.ofSeconds 0) "" "" _, rfl, rfl⟩
  have hvalid : validate rule.expr rootPath = .ok () := by
    rw [hexpr]
    decide +kernel
  have hcompile : Compiler.start.compile rule = .ok (_, _) :=
    Compiler.compile_eq_ok (by rw [hid]; decide) (validate_eq_ok_iff.mp hvalid)
  have hfields : rule.expr.requiredFields = ["age", "tags"] := by
    rw [hexpr]
    decide +kernel
  obtain ⟨hagree, habsent, -⟩ := run_reads_required_fields hcompile true
  refine ⟨_, hfields, hagree _ _ ?_, habsent "tags" ?_ _ rfl⟩
  · dsimp only
    rw [hfields]
    intro field hfield
    rcases List.mem_cons.mp hfield with rfl | hfield
    · rfl
    · rw [List.mem_singleton.mp hfield]
      rfl
  · dsimp only
    rw [hfields]
    decide

end PostfixRules
