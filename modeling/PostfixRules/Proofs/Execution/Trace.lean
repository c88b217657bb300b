import PostfixRules.Proofs.Combination
import PostfixRules.Proofs.Expr.Postorder
import PostfixRules.Proofs.Verdict

/-!
# What a trace says

The trace of a run goes through the nodes of the tree in postorder and has one line for each. A line
begins with the path of its node and ends with the verdict that the part of the tree at this node
would have if it were decided by itself; the line of a logical node shows the verdicts on its two
sides as well. The conditions that a run reports do not depend on whether it was traced.
-/

namespace PostfixRules

namespace Findings

/-- Whether a line of a trace says that its node holds. -/
def SaysMatched (line : String) : Prop :=
  " => MATCHED".toList <:+ line.toList

theorem saysMatched_iff {stem : String} {matched : Bool} :
    SaysMatched (stem ++ " => " ++ verdictText matched) ↔ matched = true := by
  cases matched with
  | true =>
    refine iff_of_true ⟨stem.toList, ?_⟩ rfl
    simp [verdictText, String.toList_append]
  | false =>
    refine iff_of_false ?_ Bool.false_ne_true
    intro h
    have hother : " => NOT_MATCHED".toList <:+ (stem ++ " => " ++ verdictText false).toList :=
      ⟨stem.toList, by simp [verdictText, String.toList_append]⟩
    have hlonger : ¬ " => NOT_MATCHED".toList <:+ " => MATCHED".toList := by decide
    have hshorter : ¬ " => MATCHED".toList <:+ " => NOT_MATCHED".toList := by decide
    exact (List.suffix_or_suffix_of_suffix h hother).elim hshorter hlonger

end Findings

/-- The line of a trace for the node at an address of a tree that itself has a path. The verdicts
are those of the parts of the tree decided by themselves. -/
inductive Expr.LineAt (record : Record) (path : String) (expr : Expr) (address : Address) :
    String → Prop where
  | comparison {operator : ComparisonOperator} {field : String} {value : Literal} {matched : Bool}
    (hat : expr.at? address = some (.comparison operator field value))
    (hverdict : evaluate (.comparison operator field value) record = .ok matched) :
    LineAt record path expr address
      (Findings.comparisonLine (address.pathFrom path) operator field value matched)
  | logical {operator : LogicalOperator} {left right : Expr} {l r matched : Bool}
    (hat : expr.at? address = some (.logical operator left right))
    (hleft : evaluate left record = .ok l) (hright : evaluate right record = .ok r)
    (hverdict : evaluate (.logical operator left right) record = .ok matched) :
    LineAt record path expr address
      (Findings.logicalLine (address.pathFrom path) operator l r matched)

namespace Expr.LineAt

variable {record : Record} {path : String} {expr : Expr} {address : Address} {line : String}

/-- A line for a node on a side is one for that node in the whole tree. -/
theorem below {operator : LogicalOperator} {left right : Expr} (side : Side)
    (h : (side.pick left right).LineAt record (path ++ side.suffix) address line) :
    (Expr.logical operator left right).LineAt record path (side :: address) line := by
  cases h with
  | comparison hat hverdict =>
    rw [← at?_logical_cons operator] at hat
    exact .comparison hat hverdict
  | logical hat hleft hright hverdict =>
    rw [← at?_logical_cons operator] at hat
    exact .logical hat hleft hright hverdict

/-- A line begins with the path of its node and a colon. -/
theorem begins (h : expr.LineAt record path address line) :
    (address.pathFrom path ++ ":").toList <+: line.toList := by
  cases h with
  | @comparison operator field value matched hat hverdict =>
    refine ⟨(" " ++ Findings.conditionText operator field value ++ " => " ++
      Findings.verdictText matched).toList, ?_⟩
    simp [Findings.comparisonLine, String.toList_append]
  | @logical operator left right l r matched hat hleft hright hverdict =>
    refine ⟨(" " ++ operator.word ++ " (" ++ Findings.boolText l ++ ", " ++ Findings.boolText r ++
      ") => " ++ Findings.verdictText matched).toList, ?_⟩
    simp [Findings.logicalLine, String.toList_append]

/-- A line ends with the verdict on the part of the tree at its node. -/
theorem ends (h : expr.LineAt record path address line) :
    ∃ node verdict, expr.at? address = some node ∧ evaluate node record = .ok verdict ∧
      (Findings.SaysMatched line ↔ verdict = true) := by
  cases h with
  | comparison hat hverdict =>
    exact ⟨_, _, hat, hverdict, Findings.saysMatched_iff⟩
  | @logical operator left right l r matched hat hleft hright hverdict =>
    refine ⟨_, _, hat, hverdict, ?_⟩
    have hsplit : ") => " = ")" ++ " => " := rfl
    rw [Findings.logicalLine, hsplit, ← String.append_assoc]
    exact Findings.saysMatched_iff

end Expr.LineAt

/-- Run where it stands, a part of a tree comes to the verdict that it has when it is decided by
itself. -/
theorem evaluate_of_runAt {record : Record} {traced : Bool} {path : String} {level : Nat}
    {expr : Expr} {findings : Findings} (hlevel : 1 ≤ level)
    (h : runAt record traced path level expr = .ok findings) :
    evaluate expr record = .ok findings.matched := by
  have hverdict : evaluateAt record level expr = .ok findings.matched := by
    rw [evaluateAt_eq_map_runAt record traced path, h]
    rfl
  have hdepth := (depth_le_and_leaves_of_evaluateAt hverdict).1
  have hsame : evaluateAt record 1 expr = evaluateAt record level expr :=
    evaluateAt_eq_of_depth_le (by omega) hdepth
  rw [evaluate, hsame, hverdict]

/-- A traced run has a line for each node, in postorder. The lines of a side of the root are those
of the side by itself, with its own path in front. -/
theorem trace_of_runAt {record : Record} {path : String} {level : Nat} {expr : Expr}
    {findings : Findings} (hlevel : 1 ≤ level)
    (h : runAt record true path level expr = .ok findings) :
    List.Forall₂ (expr.LineAt record path) expr.postorder findings.trace := by
  induction expr generalizing path level findings with
  | comparison operator field value =>
    have hverdict := evaluate_of_runAt hlevel h
    rw [runAt] at h
    split_ifs at h with hdeep
    obtain ⟨matched, -, rfl⟩ := Outcome.map_eq_ok_iff.mp h
    exact .cons (.comparison (Expr.at?_nil _) hverdict) .nil
  | logical operator left right ihl ihr =>
    have hverdict := evaluate_of_runAt hlevel h
    rw [runAt_logical] at h
    split_ifs at h with hdeep
    obtain ⟨l, hl, h⟩ := Outcome.bind_eq_ok_iff.mp h
    obtain ⟨r, hr, rfl⟩ := Outcome.map_eq_ok_iff.mp h
    have hbelow : 1 ≤ level + 1 := Nat.le_add_left 1 level
    have hroot : (Expr.logical operator left right).LineAt record path [] _ :=
      .logical (Expr.at?_nil _) (evaluate_of_runAt hbelow hl) (evaluate_of_runAt hbelow hr) hverdict
    have hleft : List.Forall₂ ((Expr.logical operator left right).LineAt record path)
        (left.postorder.map (.left :: ·)) l.trace :=
      List.forall₂_map_left_iff.mpr ((ihl hbelow hl).imp fun _ _ hline => .below .left hline)
    have hright : List.Forall₂ ((Expr.logical operator left right).LineAt record path)
        (right.postorder.map (.right :: ·)) r.trace :=
      List.forall₂_map_left_iff.mpr ((ihr hbelow hr).imp fun _ _ hline => .below .right hline)
    exact List.rel_append (List.rel_append hleft hright) (.cons hroot .nil)

/-- The last of several lines is that of the root. -/
theorem exists_getLast?_of_lines {record : Record} {path : String} {expr : Expr}
    {lines : List String} (h : List.Forall₂ (expr.LineAt record path) expr.postorder lines) :
    ∃ line, lines.getLast? = some line ∧ expr.LineAt record path [] line := by
  obtain ⟨before, hconcat⟩ := expr.exists_postorder_eq_concat
  rw [hconcat, ← List.forall₂_reverse_iff, List.reverse_concat] at h
  obtain ⟨line, rest, hline, -, hlines⟩ := List.forall₂_cons_left_iff.mp h
  refine ⟨line, ?_, hline⟩
  rw [List.getLast?_eq_head?_reverse, hlines, List.head?_cons]

/-- A traced run that succeeds says of every node of the tree, in postorder, whether the part of the
tree at this node holds when it is decided by itself. Each line begins with the path of its node, no
path is repeated, and the last line is that of the root and agrees with the verdict of the run. The
conditions that are reported are the comparisons that hold, from left to right and with repetitions,
and a run that is not traced reports the same. -/
theorem trace_describes_run {expr : Expr} {record : Record} {execution : Execution}
    (h : expr.run true record = .ok execution) :
    execution.findings.trace.length = 2 * expr.comparisonCount - 1 ∧
    List.Forall₂ (expr.LineAt record rootPath) expr.postorder execution.findings.trace ∧
    (∀ address, address ∈ expr.postorder ↔ ∃ node, expr.at? address = some node) ∧
    (expr.postorder.map (Address.pathFrom rootPath)).Nodup ∧
    (∀ address line, expr.LineAt record rootPath address line →
      (address.pathFrom rootPath ++ ":").toList <+: line.toList ∧
      ∃ node verdict, expr.at? address = some node ∧ evaluate node record = .ok verdict ∧
        (Findings.SaysMatched line ↔ verdict = true)) ∧
    (∃ line, execution.findings.trace.getLast? = some line ∧
      expr.LineAt record rootPath [] line ∧
      (Findings.SaysMatched line ↔ execution.findings.matched = true)) ∧
    execution.findings.conditions = expr.conditions record ∧
    ∃ plain, expr.run false record = .ok plain ∧
      plain.findings.conditions = expr.conditions record := by
  obtain ⟨findings, hexecute, rfl⟩ := Outcome.map_eq_ok_iff.mp h
  have hlines := trace_of_runAt (Nat.le_refl 1) hexecute
  have hverdict := evaluate_of_runAt (Nat.le_refl 1) hexecute
  refine ⟨?_, hlines, fun address => Expr.mem_postorder_iff,
    expr.nodup_postorder.map (Address.pathFrom_injective rootPath),
    fun address line hline => ⟨hline.begins, hline.ends⟩, ?_, Expr.conditions_of_run h, ?_⟩
  · have hlength := expr.length_postorder
    rw [hlines.length_eq] at hlength
    exact Nat.eq_sub_of_add_eq hlength
  · obtain ⟨line, hlast, hline⟩ := exists_getLast?_of_lines hlines
    obtain ⟨node, verdict, hat, hnode, hsays⟩ := hline.ends
    rw [Expr.at?_nil, Option.some.injEq] at hat
    rw [← hat, hverdict, Except.ok.injEq] at hnode
    exact ⟨line, hlast, hline, hnode ▸ hsays⟩
  · have hplain := expr.run_false_eq_map_run true record
    rw [h] at hplain
    exact ⟨_, hplain, Expr.conditions_of_run hplain⟩

/-- Two joints over three comparisons, one of which occurs twice and one of which does not hold. -/
theorem trace_describes_run_five_lines :
    ∃ (expr : Expr) (record : Record) (execution : Execution),
      expr.text = "dept sales = role lead = OR dept sales = AND" ∧
      expr.run true record = .ok execution ∧
      execution.findings.conditions = ["dept = sales", "dept = sales"] ∧
      execution.findings.trace.length = 2 * expr.comparisonCount - 1 ∧
      List.Forall₂ (expr.LineAt record rootPath)
        [[.left, .left], [.left, .right], [.left], [.right], []]
        ["root.left.left: dept = sales => MATCHED", "root.left.right: role = lead => NOT_MATCHED",
          "root.left: OR (true, false) => MATCHED", "root.right: dept = sales => MATCHED",
          "root: AND (true, true) => MATCHED"] := by
  have hrun : Expr.run true
      (.logical .and (.logical .or (.comparison .equal "dept" (.string "sales"))
        (.comparison .equal "role" (.string "lead"))) (.comparison .equal "dept" (.string "sales")))
      (.ofPairs [("dept", .string "sales"), ("role", .string "clerk")]) = .ok _ := rfl
  obtain ⟨hlength, hlines, -⟩ := trace_describes_run hrun
  exact ⟨_, _, _, rfl, hrun, rfl, hlength, hlines⟩

end PostfixRules
