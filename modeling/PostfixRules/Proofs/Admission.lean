import PostfixRules.Proofs.Store
import PostfixRules.Proofs.Verdict

/-!
# Accepted text is admitted everywhere

Three parts of the engine refuse trees: the check, the compiler that asks for it, and the two ways
of deciding a tree. None of them refuses the tree of a text that has been accepted, since reading
the text has already granted what they ask for. A store therefore makes a rule of a text exactly if
the text is accepted, and what it refuses it refuses for the reason that the reader gives.
-/

namespace PostfixRules

/-- An error that lies in the data is not the fault of a node. -/
theorem RuleError.IsDataError.ne_invalidNode {e : RuleError} (h : e.IsDataError)
    (defect : NodeDefect) : e ≠ .invalidNode defect := by
  rintro rfl
  exact h

/-- Under an id that is not empty, a store makes a rule of the tree of a text or gives the error of
reading the text. -/
theorem Store.create_eq_map_parse (store : Store) {id : String} (hid : id ≠ "") (now : Timestamp)
    (name description text : String) :
    (store.create id now name description text).1 =
      (parse text).map (Rule.create id now name description) := by
  cases hparse : parse text with
  | error e =>
    rw [store.create_of_parse_error id now name description hparse]
    rfl
  | ok expr =>
    rw [store.create_of_parse_ok hid now name description hparse]
    rfl

/-- The tree of accepted text passes the check under every name of its root, compiles as the tree of
any rule with an id, and is never refused when it is decided or run. In whatever state a store is,
it creates a rule of a text exactly if the text is accepted, and otherwise gives the error of
reading it. -/
theorem accepted_text_admitted (text : String) :
    (∀ expr, parse text = .ok expr →
      (∀ path, validate expr path = .ok ()) ∧
      (∀ (compiler : Compiler) (rule : Rule), rule.id ≠ "" → rule.expr = expr →
        ∃ compiled compiler', compiler.compile rule = .ok (compiled, compiler') ∧
          compiled.rule = rule) ∧
      ∀ record traced defect, evaluate expr record ≠ .error (.invalidNode defect) ∧
        expr.run traced record ≠ .error (.invalidNode defect)) ∧
    ∀ (store : Store) id now name description, id ≠ "" →
      (∀ rule, (store.create id now name description text).1 = .ok rule ↔
        ∃ expr, parse text = .ok expr ∧ Rule.create id now name description expr = rule) ∧
      ∀ e, (store.create id now name description text).1 = .error e ↔ parse text = .error e := by
  constructor
  · intro expr hparse
    have hsound : expr.IsSound := (isCanonical_of_parse hparse).isSound
    refine ⟨fun path => validate_eq_ok_iff.mpr hsound, ?_, ?_⟩
    · rintro compiler rule hid rfl
      exact ⟨_, _, Compiler.compile_eq_ok hid hsound, rfl⟩
    · intro record traced defect
      constructor
      · intro h
        exact (isDataError_of_evaluate hsound h).ne_invalidNode defect rfl
      · intro h
        exact (Expr.isDataError_of_run hsound h).ne_invalidNode defect rfl
  · intro store id now name description hid
    rw [store.create_eq_map_parse hid]
    exact ⟨fun rule => Outcome.map_eq_ok_iff, fun e => Outcome.map_eq_error_iff⟩

end PostfixRules
