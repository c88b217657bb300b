import PostfixRules.Proofs.Comparisons
import PostfixRules.Proofs.Expr.Address
import PostfixRules.Proofs.Verdict

/-!
# The verdict of a tree is that of its formula

Within the depth limit the verdicts on the comparisons of a tree say everything: if all of them are
there, the tree has the truth value of the formula over them, and otherwise its error is that of
the leftmost comparison that fails. Nothing masks an error, whatever the other verdicts are. In a
deeper tree the first level below the limit fails at every node, so that such a tree has no verdict;
its error is the first one that going through the tree in depth, from left to right, comes to.
-/

namespace PostfixRules

/-- The formula of a tree over the truth of its comparisons. -/
def Expr.Formula (truth : Comparison → Prop) : Expr → Prop
  | .comparison operator field value => truth ⟨operator, field, value⟩
  | .logical .and left right => left.Formula truth ∧ right.Formula truth
  | .logical .or left right => left.Formula truth ∨ right.Formula truth

/-- What is wrong at an address of a tree of which `limit` levels are decided: a comparison on one
of these levels fails, or a node stands on the first level below them. -/
inductive Expr.FaultAt (record : Record) (limit : Nat) (expr : Expr) (address : Address) :
    RuleError → Prop where
  | comparison {operator : ComparisonOperator} {field : String} {value : Literal} {e : RuleError}
    (hat : expr.at? address = some (.comparison operator field value))
    (hlevel : address.length < limit)
    (hverdict : Comparison.verdict record ⟨operator, field, value⟩ = .error e) :
    FaultAt record limit expr address e
  | tooDeep {node : Expr} (hat : expr.at? address = some node) (hlevel : address.length = limit) :
    FaultAt record limit expr address (.invalidNode .tooDeepToDecide)

/-- The error at the first address where something is wrong. -/
def Expr.FirstFault (record : Record) (limit : Nat) (expr : Expr) (e : RuleError) : Prop :=
  ∃ address, expr.FaultAt record limit address e ∧
    address.IsFirst fun other => ∃ e', expr.FaultAt record limit other e'

/-! ## The comparisons decide -/

/-- Within the depth limit deciding a tree fails exactly as going through its comparisons does. -/
theorem evaluateAt_failsAlike {record : Record} {level : Nat} {expr : Expr}
    (h : level + expr.depth ≤ maxDepth + 1) :
    Outcome.FailsAlike (evaluateAt record level expr)
      (expr.comparisons.mapM (Comparison.verdict record)) := by
  induction expr generalizing level with
  | comparison operator field value =>
    simp only [Expr.depth] at h
    intro e
    rw [evaluateAt, if_neg (by omega), Expr.comparisons]
    cases hverdict : Comparison.verdict record ⟨operator, field, value⟩ with
    | error e' =>
      rw [Outcome.mapM_cons_of_error hverdict]
      simp only [Comparison.verdict] at hverdict
      rw [hverdict, Except.error.injEq, Except.error.injEq]
    | ok matched =>
      rw [Outcome.mapM_cons_of_ok hverdict]
      simp only [Comparison.verdict] at hverdict
      rw [hverdict, List.mapM_nil]
      exact iff_of_false (fun h => by cases h) (fun h => by cases h)
  | logical operator left right ihl ihr =>
    simp only [Expr.depth] at h
    rw [evaluateAt_logical, if_neg (by omega), Expr.comparisons, Outcome.mapM_append]
    exact (ihl (by omega)).bind_map (ihr (by omega)) _ _

/-- A tree that is decided has the truth value of its formula. -/
theorem formula_of_evaluateAt {record : Record} {level : Nat} {expr : Expr} {verdict : Bool}
    (h : evaluateAt record level expr = .ok verdict) :
    verdict = true ↔ expr.Formula fun c => c.verdict record = .ok true := by
  induction expr generalizing level verdict with
  | comparison operator field value =>
    rw [evaluateAt] at h
    split_ifs at h with hlevel
    have hverdict : Comparison.verdict record ⟨operator, field, value⟩ = .ok verdict := h
    rw [Expr.Formula, hverdict, Except.ok.injEq]
  | logical operator left right ihl ihr =>
    rw [evaluateAt_logical] at h
    split_ifs at h with hlevel
    obtain ⟨l, hl, h⟩ := Outcome.bind_eq_ok_iff.mp h
    obtain ⟨r, hr, rfl⟩ := Outcome.map_eq_ok_iff.mp h
    cases operator with
    | and => rw [Expr.Formula, ← ihl hl, ← ihr hr, LogicalOperator.apply, Bool.and_eq_true]
    | or => rw [Expr.Formula, ← ihl hl, ← ihr hr, LogicalOperator.apply, Bool.or_eq_true]

/-- Within the depth limit a tree is decided exactly if all its comparisons are, by its formula. -/
theorem evaluate_eq_ok_iff {record : Record} {expr : Expr} (h : expr.depth ≤ maxDepth)
    {verdict : Bool} : evaluate expr record = .ok verdict ↔
      (∀ c ∈ expr.comparisons, ∃ matched, c.verdict record = .ok matched) ∧
        (verdict = true ↔ expr.Formula fun c => c.verdict record = .ok true) := by
  have halike : Outcome.FailsAlike (evaluate expr record) _ :=
    @evaluateAt_failsAlike record 1 expr (by omega)
  constructor
  · intro hverdict
    obtain ⟨verdicts, hverdicts⟩ := halike.exists_ok_iff.mp ⟨verdict, hverdict⟩
    exact ⟨fun c hc => Outcome.exists_of_mapM_eq_ok hverdicts hc, formula_of_evaluateAt hverdict⟩
  · rintro ⟨hcomparisons, hformula⟩
    obtain ⟨other, hother⟩ := halike.exists_ok_iff.mpr (Outcome.exists_mapM_eq_ok hcomparisons)
    have htruth : other = true ↔ verdict = true :=
      (formula_of_evaluateAt hother).trans hformula.symm
    rw [hother, Bool.eq_iff_iff.mpr htruth]

/-- Within the depth limit a tree fails exactly as the leftmost of its comparisons that fails. -/
theorem evaluate_eq_error_iff {record : Record} {expr : Expr} (h : expr.depth ≤ maxDepth)
    {e : RuleError} : evaluate expr record = .error e ↔ ∃ before failing after,
      expr.comparisons = before ++ failing :: after ∧
        (∀ c ∈ before, ∃ matched, c.verdict record = .ok matched) ∧
        failing.verdict record = .error e := by
  have halike : Outcome.FailsAlike (evaluate expr record) _ :=
    @evaluateAt_failsAlike record 1 expr (by omega)
  rw [halike e, Outcome.mapM_eq_error_iff]

/-! ## What is wrong with a tree -/

namespace Expr

variable {record : Record} {limit : Nat} {address : Address} {e : RuleError}

/-- On the first level that is not decided, the root itself is what is wrong. -/
theorem faultAt_zero_iff {expr : Expr} :
    expr.FaultAt record 0 address e ↔
      address = [] ∧ e = .invalidNode .tooDeepToDecide := by
  constructor
  · rintro (⟨hat, hlevel, hverdict⟩ | ⟨hat, hlevel⟩)
    · cases hlevel
    · exact ⟨List.length_eq_zero_iff.mp hlevel, rfl⟩
  · rintro ⟨rfl, rfl⟩
    exact .tooDeep (at?_nil expr) rfl

/-- What is wrong with a comparison that is decided is its verdict. -/
theorem faultAt_comparison_iff {operator : ComparisonOperator} {field : String} {value : Literal} :
    (comparison operator field value).FaultAt record (limit + 1) address e ↔
      address = [] ∧ Comparison.verdict record ⟨operator, field, value⟩ = .error e := by
  constructor
  · intro h
    cases address with
    | nil =>
      cases h with
      | comparison hat hlevel hverdict =>
        cases hat
        exact ⟨rfl, hverdict⟩
      | tooDeep hat hlevel => cases hlevel
    | cons side rest => cases h <;> contradiction
  · rintro ⟨rfl, hverdict⟩
    exact .comparison (at?_nil _) (Nat.succ_pos limit) hverdict

/-- Nothing is wrong with a logical node itself. -/
theorem not_faultAt_root {operator : LogicalOperator} {left right : Expr} :
    ¬ (logical operator left right).FaultAt record (limit + 1) [] e := by
  rintro (⟨hat, -, -⟩ | ⟨-, hlevel⟩)
  · cases hat
  · cases hlevel

/-- What is wrong on a side of a logical node is what is wrong with the tree there. -/
theorem faultAt_cons_iff {operator : LogicalOperator} {left right : Expr} {side : Side} :
    (logical operator left right).FaultAt record (limit + 1) (side :: address) e ↔
      (side.pick left right).FaultAt record limit address e := by
  constructor
  · rintro (⟨hat, hlevel, hverdict⟩ | ⟨hat, hlevel⟩) <;> rw [at?_logical_cons] at hat
    · exact .comparison hat (Nat.lt_of_succ_lt_succ hlevel) hverdict
    · exact .tooDeep hat (Nat.succ.inj hlevel)
  · rintro (⟨hat, hlevel, hverdict⟩ | ⟨hat, hlevel⟩) <;> rw [← at?_logical_cons operator] at hat
    · exact .comparison hat (Nat.succ_lt_succ hlevel) hverdict
    · exact .tooDeep hat (congrArg (· + 1) hlevel)

/-- At one address one thing is wrong at most. -/
theorem FaultAt.unique {expr : Expr} {e' : RuleError} (h : expr.FaultAt record limit address e)
    (h' : expr.FaultAt record limit address e') : e = e' := by
  cases h with
  | comparison hat hlevel hverdict =>
    cases h' with
    | comparison hat' hlevel' hverdict' =>
      rw [hat] at hat'
      cases hat'
      rw [hverdict] at hverdict'
      exact Except.error.inj hverdict'
    | tooDeep hat' hlevel' => omega
  | tooDeep hat hlevel =>
    cases h' with
    | comparison hat' hlevel' hverdict' => omega
    | tooDeep hat' hlevel' => rfl

/-- The error at the first address is determined. -/
theorem FirstFault.unique {expr : Expr} {e' : RuleError} (h : expr.FirstFault record limit e)
    (h' : expr.FirstFault record limit e') : e = e' := by
  obtain ⟨address, hfault, hfirst⟩ := h
  obtain ⟨other, hother, hfirst'⟩ := h'
  cases hfirst.unique hfirst'
  exact hfault.unique hother

/-- The first fault on a side is the first fault of all, if it is on the left or nothing is wrong
there. -/
theorem FirstFault.logical {operator : LogicalOperator} {left right : Expr} (side : Side)
    (hleft : side = .right → ∀ rest e', ¬ left.FaultAt record limit rest e')
    (h : (side.pick left right).FirstFault record limit e) :
    (Expr.logical operator left right).FirstFault record (limit + 1) e := by
  obtain ⟨address, hfault, hfirst⟩ := h
  refine ⟨side :: address, faultAt_cons_iff.mpr hfault, ?_⟩
  have hroot : ¬ ∃ e', (Expr.logical operator left right).FaultAt record (limit + 1) [] e' := by
    rintro ⟨e', h⟩
    exact not_faultAt_root h
  have hside : Address.IsFirst (fun rest => ∃ e',
      (Expr.logical operator left right).FaultAt record (limit + 1) (side :: rest) e') address := by
    simpa only [faultAt_cons_iff] using hfirst
  refine hside.of_side side hroot ?_
  rintro hright rest ⟨e', h⟩
  exact hleft hright rest e' (faultAt_cons_iff.mp h)

/-- Where only the root can be at fault, its fault is the first one. -/
theorem FaultAt.firstFault {expr : Expr} (h : expr.FaultAt record limit [] e)
    (honly : ∀ other e', expr.FaultAt record limit other e' → other = []) :
    expr.FirstFault record limit e := by
  refine ⟨[], h, .root ⟨e, h⟩ ?_⟩
  rintro other ⟨e', hother⟩
  exact honly other e' hother

end Expr

/-- Nothing is wrong with a tree that is decided: both sides of a logical node always are. -/
theorem not_faultAt_of_evaluateAt {record : Record} {level limit : Nat} {expr : Expr}
    {verdict : Bool} (hlimit : level + limit = maxDepth + 1)
    (h : evaluateAt record level expr = .ok verdict) (address : Address) (e : RuleError) :
    ¬ expr.FaultAt record limit address e := by
  induction expr generalizing level limit verdict address with
  | comparison operator field value =>
    rw [evaluateAt] at h
    split_ifs at h with hlevel
    obtain ⟨below, rfl⟩ : ∃ below, limit = below + 1 := ⟨limit - 1, by omega⟩
    rw [Expr.faultAt_comparison_iff]
    rintro ⟨-, herror⟩
    rw [Comparison.verdict, h] at herror
    cases herror
  | logical operator left right ihl ihr =>
    rw [evaluateAt_logical] at h
    split_ifs at h with hlevel
    obtain ⟨below, rfl⟩ : ∃ below, limit = below + 1 := ⟨limit - 1, by omega⟩
    obtain ⟨l, hl, h⟩ := Outcome.bind_eq_ok_iff.mp h
    obtain ⟨r, hr, -⟩ := Outcome.map_eq_ok_iff.mp h
    cases address with
    | nil => exact Expr.not_faultAt_root
    | cons side rest =>
      rw [Expr.faultAt_cons_iff]
      cases side with
      | left => exact ihl (by omega) hl rest
      | right => exact ihr (by omega) hr rest

/-- A tree that is not decided ends in the first error: the sides of a logical node are decided one
after the other, and the second only if nothing is wrong with the first. -/
theorem firstFault_of_evaluateAt {record : Record} {level limit : Nat} {expr : Expr}
    {e : RuleError} (hlimit : level + limit = maxDepth + 1)
    (h : evaluateAt record level expr = .error e) : expr.FirstFault record limit e := by
  induction expr generalizing level limit with
  | comparison operator field value =>
    rw [evaluateAt] at h
    split_ifs at h with hlevel
    · obtain rfl : limit = 0 := by omega
      cases h
      exact (Expr.faultAt_zero_iff.mpr ⟨rfl, rfl⟩).firstFault fun other e' hother =>
        (Expr.faultAt_zero_iff.mp hother).1
    · obtain ⟨below, rfl⟩ : ∃ below, limit = below + 1 := ⟨limit - 1, by omega⟩
      exact (Expr.faultAt_comparison_iff.mpr ⟨rfl, h⟩).firstFault fun other e' hother =>
        (Expr.faultAt_comparison_iff.mp hother).1
  | logical operator left right ihl ihr =>
    rw [evaluateAt_logical] at h
    split_ifs at h with hlevel
    · obtain rfl : limit = 0 := by omega
      cases h
      exact (Expr.faultAt_zero_iff.mpr ⟨rfl, rfl⟩).firstFault fun other e' hother =>
        (Expr.faultAt_zero_iff.mp hother).1
    · obtain ⟨below, rfl⟩ : ∃ below, limit = below + 1 := ⟨limit - 1, by omega⟩
      have hbelow : level + 1 + below = maxDepth + 1 := by omega
      rcases Outcome.bind_eq_error_iff.mp h with hl | ⟨l, hl, hr⟩
      · exact Expr.FirstFault.logical .left (fun hside => by cases hside) (ihl hbelow hl)
      · exact Expr.FirstFault.logical .right (fun _ => not_faultAt_of_evaluateAt hbelow hl)
          (ihr hbelow (Outcome.map_eq_error_iff.mp hr))

/-- A tree has no verdict exactly if something is wrong with it, and then ends in the first error
that going through it in depth, from left to right, comes to. -/
theorem evaluate_eq_error_iff_firstFault {record : Record} {expr : Expr} {e : RuleError} :
    evaluate expr record = .error e ↔ expr.FirstFault record maxDepth e := by
  constructor
  · exact firstFault_of_evaluateAt (Nat.add_comm 1 maxDepth)
  · intro hfirst
    cases hverdict : evaluate expr record with
    | error e' =>
      have hfirst' := firstFault_of_evaluateAt (Nat.add_comm 1 maxDepth) hverdict
      rw [hfirst.unique hfirst']
    | ok verdict =>
      obtain ⟨address, hfault, -⟩ := hfirst
      exact absurd hfault
        (not_faultAt_of_evaluateAt (Nat.add_comm 1 maxDepth) hverdict address e)

/-- A tree within the depth limit is decided exactly if all its comparisons are, by its formula over
them, and otherwise fails as the leftmost comparison that fails. A deeper tree always fails, with
the error at the first address, in depth and from left to right, at which a comparison within the
limit fails or a node stands on the first level below. -/
theorem evaluate_formula_or_first_fault (expr : Expr) (record : Record) :
    (expr.depth ≤ maxDepth →
      (∀ verdict, evaluate expr record = .ok verdict ↔
        (∀ c ∈ expr.comparisons, ∃ matched, c.verdict record = .ok matched) ∧
          (verdict = true ↔ expr.Formula fun c => c.verdict record = .ok true)) ∧
      ∀ e, evaluate expr record = .error e ↔ ∃ before failing after,
        expr.comparisons = before ++ failing :: after ∧
          (∀ c ∈ before, ∃ matched, c.verdict record = .ok matched) ∧
          failing.verdict record = .error e) ∧
    (maxDepth < expr.depth →
      (∃ e, evaluate expr record = .error e) ∧
      ∀ e, evaluate expr record = .error e ↔ expr.FirstFault record maxDepth e) := by
  constructor
  · intro hdepth
    exact ⟨fun _ => evaluate_eq_ok_iff hdepth, fun _ => evaluate_eq_error_iff hdepth⟩
  · intro hdeep
    refine ⟨?_, fun _ => evaluate_eq_error_iff_firstFault⟩
    cases hverdict : evaluate expr record with
    | error e => exact ⟨e, rfl⟩
    | ok verdict => exact absurd (isSound_of_evaluate hverdict).depth_le (Nat.not_le.mpr hdeep)

end PostfixRules
