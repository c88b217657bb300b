import PostfixRules.Proofs.Expr.Postorder
import PostfixRules.Proofs.Validation

/-!
# The check names the first offending node

What makes a node offend depends on the node alone and on the level at which it stands: on the first
level below the limit every node does, and within the limit a comparison without a field or with a
number that may not be compared with. The check refuses the trees in which some node offends. It
then reports the first of these nodes that going through the tree in depth, from left to right,
comes to, and the path in the message takes the steps to this node and to no other.
-/

namespace PostfixRules

/-- What the check holds against a single node. -/
inductive Offence where
  | tooDeep
  | emptyField
  | notFinite (value : Double)
  deriving DecidableEq

namespace Offence

/-- The defect of a tree that has the offence at a path. -/
def defectAt (path : String) : Offence → NodeDefect
  | .tooDeep => .tooDeepAt path
  | .emptyField => .emptyFieldAt path
  | .notFinite value => .notFiniteAt path value

/-- How the message goes on after the path. -/
def wording : Offence → String
  | .tooDeep => "' 超过最大深度 100"
  | .emptyField => "' 的字段名为空"
  | .notFinite value => "' 的数值字面量无效: " ++ value.plainText

/-- The message has the path in it, whatever the offence is. -/
theorem message_defectAt (path : String) (offence : Offence) :
    (RuleError.invalidNode (offence.defectAt path)).message =
      "无效的表达式节点: " ++ ("节点 '" ++ path ++ offence.wording) := by
  refine congrArg ("无效的表达式节点: " ++ ·) ?_
  cases offence with
  | tooDeep =>
    have hlimit : "' 超过最大深度 " ++ Text.natText maxDepth = "' 超过最大深度 100" := by
      decide +kernel
    calc ("节点 '" ++ path) ++ "' 超过最大深度 " ++ Text.natText maxDepth
      _ = ("节点 '" ++ path) ++ ("' 超过最大深度 " ++ Text.natText maxDepth) := String.append_assoc
      _ = ("节点 '" ++ path) ++ "' 超过最大深度 100" := by rw [hlimit]
  | emptyField => rfl
  | notFinite value => exact String.append_assoc

end Offence

/-- What a node commits at the level where it stands, its own level counted from one. -/
inductive Expr.Commits (level : Nat) : Expr → Offence → Prop where
  | tooDeep {node : Expr} (hlevel : level = maxDepth + 1) : Commits level node .tooDeep
  | emptyField {operator : ComparisonOperator} {value : Literal} (hlevel : level ≤ maxDepth) :
    Commits level (.comparison operator "" value) .emptyField
  | notFinite {operator : ComparisonOperator} {field : String} {x : Double}
    (hlevel : level ≤ maxDepth) (hfield : field ≠ "") (hx : x.isFinite = false) :
    Commits level (.comparison operator field (.number x)) (.notFinite x)

/-- The node at an address commits an offence, in a tree whose root stands at a level. -/
def Expr.OffendsAt (level : Nat) (expr : Expr) (address : Address) (offence : Offence) : Prop :=
  ∃ node, expr.at? address = some node ∧ node.Commits (level + address.length) offence

/-- The first node at which anything offends, and what it commits. -/
def Expr.FirstOffence (level : Nat) (expr : Expr) (address : Address) (offence : Offence) : Prop :=
  expr.OffendsAt level address offence ∧
    address.IsFirst fun other => ∃ offence', expr.OffendsAt level other offence'

namespace Expr

variable {level : Nat} {address : Address} {offence : Offence}

/-! ## Where a node offends -/

/-- A node commits one offence at most. -/
theorem Commits.unique {node : Expr} {offence' : Offence} (h : node.Commits level offence)
    (h' : node.Commits level offence') : offence = offence' := by
  cases h with
  | tooDeep hlevel =>
    cases h' with
    | tooDeep => rfl
    | emptyField hlevel' => omega
    | notFinite hlevel' => omega
  | emptyField hlevel =>
    cases h' with
    | tooDeep hlevel' => omega
    | emptyField => rfl
    | notFinite _ hfield => exact absurd rfl hfield
  | notFinite hlevel hfield =>
    cases h' with
    | tooDeep hlevel' => omega
    | emptyField => exact absurd rfl hfield
    | notFinite => rfl

/-- Within the limit a logical node commits nothing. -/
theorem not_commits_logical {operator : LogicalOperator} {left right : Expr}
    (hlevel : level ≤ maxDepth) : ¬ (logical operator left right).Commits level offence := by
  rintro ⟨hlevel'⟩
  omega

/-- Within the limit a comparison offends by its field or its literal. -/
theorem exists_commits_comparison_iff {operator : ComparisonOperator} {field : String}
    {value : Literal} (hlevel : level ≤ maxDepth) :
    (∃ offence, (comparison operator field value).Commits level offence) ↔
      field = "" ∨ ¬ value.IsFinite := by
  constructor
  · rintro ⟨offence, h⟩
    cases h with
    | tooDeep hlevel' => omega
    | emptyField => exact .inl rfl
    | notFinite _ _ hx => exact .inr (by simp [Literal.IsFinite, hx])
  · intro h
    by_cases hfield : field = ""
    · subst hfield
      exact ⟨_, .emptyField hlevel⟩
    · have hvalue := h.resolve_left hfield
      cases value with
      | number x => exact ⟨_, .notFinite hlevel hfield (Bool.not_eq_true _ ▸ hvalue)⟩
      | string s => exact absurd trivial hvalue
      | boolean b => exact absurd trivial hvalue

/-- At the root the root itself offends. -/
theorem offendsAt_nil_iff {expr : Expr} :
    expr.OffendsAt level [] offence ↔ expr.Commits level offence := by
  simp [OffendsAt]

/-- A node on a side of a logical node is a node of the tree there, one level further down. -/
theorem offendsAt_cons_iff {operator : LogicalOperator} {left right : Expr} {side : Side} :
    (logical operator left right).OffendsAt level (side :: address) offence ↔
      (side.pick left right).OffendsAt (level + 1) address offence := by
  have hlevel : level + (side :: address).length = level + 1 + address.length := by
    rw [List.length_cons]
    omega
  simp only [OffendsAt, at?_logical_cons, hlevel]

/-- Nothing stands below a comparison. -/
theorem not_offendsAt_comparison_cons {operator : ComparisonOperator} {field : String}
    {value : Literal} {side : Side} :
    ¬ (comparison operator field value).OffendsAt level (side :: address) offence := by
  rintro ⟨node, hat, -⟩
  cases hat

/-- On the first level below the limit nothing further down offends. -/
theorem eq_nil_of_offendsAt_below {expr : Expr}
    (h : expr.OffendsAt (maxDepth + 1) address offence) : address = [] := by
  obtain ⟨node, -, hcommits⟩ := h
  refine List.length_eq_zero_iff.mp ?_
  cases hcommits <;> omega

/-! ## The first of them -/

/-- The first offence is determined. -/
theorem FirstOffence.unique {expr : Expr} {other : Address} {offence' : Offence}
    (h : expr.FirstOffence level address offence) (h' : expr.FirstOffence level other offence') :
    address = other ∧ offence = offence' := by
  obtain rfl := h.2.unique h'.2
  obtain ⟨⟨node, hat, hcommits⟩, -⟩ := h
  obtain ⟨⟨node', hat', hcommits'⟩, -⟩ := h'
  rw [hat] at hat'
  cases hat'
  exact ⟨rfl, hcommits.unique hcommits'⟩

/-- Where nothing but the root can offend, what the root commits comes first. -/
theorem Commits.firstOffence {expr : Expr} (h : expr.Commits level offence)
    (honly : ∀ other offence', expr.OffendsAt level other offence' → other = []) :
    expr.FirstOffence level [] offence := by
  have hroot := offendsAt_nil_iff.mpr h
  refine ⟨hroot, .root ⟨offence, hroot⟩ ?_⟩
  rintro other ⟨offence', hother⟩
  exact honly other offence' hother

/-- Within the limit the first offence on a side is the first of all, if the side is the left one or
nothing on the left offends. -/
theorem FirstOffence.logical {operator : LogicalOperator} {left right : Expr}
    (hlevel : level ≤ maxDepth) (side : Side)
    (hleft : side = .right → ∀ rest offence', ¬ left.OffendsAt (level + 1) rest offence')
    (h : (side.pick left right).FirstOffence (level + 1) address offence) :
    (Expr.logical operator left right).FirstOffence level (side :: address) offence := by
  refine ⟨offendsAt_cons_iff.mpr h.1, ?_⟩
  have hroot : ¬ ∃ offence', (Expr.logical operator left right).OffendsAt level [] offence' := by
    rintro ⟨offence', hoffends⟩
    exact not_commits_logical hlevel (offendsAt_nil_iff.mp hoffends)
  have hside : Address.IsFirst (fun rest => ∃ offence',
      (Expr.logical operator left right).OffendsAt level (side :: rest) offence') address := by
    simpa only [offendsAt_cons_iff] using h.2
  refine hside.of_side side hroot ?_
  rintro hright rest ⟨offence', hoffends⟩
  exact hleft hright rest offence' (offendsAt_cons_iff.mp hoffends)

end Expr

/-! ## The check -/

/-- What an outcome of the check says of a tree at a path: that nothing offends, or what offends
first. -/
def Expr.Reports (path : String) (level : Nat) (expr : Expr) : Except RuleError Unit → Prop
  | .ok () => ∀ address offence, ¬ expr.OffendsAt level address offence
  | .error e => ∃ address offence, expr.FirstOffence level address offence ∧
      e = .invalidNode (offence.defectAt (address.pathFrom path))

/-- Within the limit a comparison is refused for what it commits. -/
theorem validateAt_comparison_eq_error {path : String} {level : Nat}
    {operator : ComparisonOperator} {field : String} {value : Literal} {e : RuleError}
    (hlevel : level ≤ maxDepth)
    (h : validateAt path level (.comparison operator field value) = .error e) :
    ∃ offence, (Expr.comparison operator field value).Commits level offence ∧
      e = .invalidNode (offence.defectAt path) := by
  unfold validateAt at h
  rw [if_neg (Nat.not_lt.mpr hlevel)] at h
  by_cases hfield : field = ""
  · subst hfield
    cases h
    exact ⟨.emptyField, .emptyField hlevel, rfl⟩
  · have hempty : field.isEmpty = false := by simpa using hfield
    simp only [hempty, Bool.false_eq_true, if_false] at h
    cases value with
    | number x =>
      dsimp only at h
      split_ifs at h with hx
      cases h
      exact ⟨.notFinite x, .notFinite hlevel hfield (Bool.not_eq_true _ ▸ hx), rfl⟩
    | string s => cases h
    | boolean b => cases h

/-- The check of a comparison says what there is to say of it. -/
theorem reports_validateAt_comparison {path : String} {level : Nat}
    {operator : ComparisonOperator} {field : String} {value : Literal}
    (hlevel : level ≤ maxDepth) :
    (Expr.comparison operator field value).Reports path level
      (validateAt path level (.comparison operator field value)) := by
  cases hcheck : validateAt path level (.comparison operator field value) with
  | error e =>
    obtain ⟨offence, hcommits, rfl⟩ := validateAt_comparison_eq_error hlevel hcheck
    refine ⟨[], offence, hcommits.firstOffence ?_, rfl⟩
    intro other offence' hother
    cases other with
    | nil => rfl
    | cons side rest => exact absurd hother Expr.not_offendsAt_comparison_cons
  | ok u =>
    obtain ⟨hfield, hvalue⟩ := (validateAt_comparison_eq_ok_iff hlevel).mp hcheck
    intro address offence hoffends
    cases address with
    | nil =>
      have hcommits := Expr.offendsAt_nil_iff.mp hoffends
      rcases (Expr.exists_commits_comparison_iff hlevel).mp ⟨offence, hcommits⟩ with h | h
      · exact hfield h
      · exact h hvalue
    | cons side rest => exact Expr.not_offendsAt_comparison_cons hoffends

/-- Below the limit the check says that the root is too deep. -/
theorem reports_validateAt_below {path : String} {expr : Expr} :
    expr.Reports path (maxDepth + 1) (validateAt path (maxDepth + 1) expr) := by
  rw [validateAt_of_lt (Nat.lt_succ_self maxDepth)]
  have hcommits : expr.Commits (maxDepth + 1) .tooDeep := .tooDeep rfl
  exact ⟨[], .tooDeep, hcommits.firstOffence fun _ _ => Expr.eq_nil_of_offendsAt_below, rfl⟩

/-- The check of a tree says what there is to say of it. Both children of a logical node are a level
further down, where a path has one step more; the right one is looked at only if nothing on the left
offends. -/
theorem reports_validateAt {path : String} {level : Nat} {expr : Expr}
    (hlevel : level ≤ maxDepth + 1) :
    expr.Reports path level (validateAt path level expr) := by
  induction expr generalizing path level with
  | comparison operator field value =>
    rcases Nat.le_succ_iff.mp hlevel with hwithin | rfl
    · exact reports_validateAt_comparison hwithin
    · exact reports_validateAt_below
  | logical operator left right ihl ihr =>
    rcases Nat.le_succ_iff.mp hlevel with hwithin | rfl
    swap
    · exact reports_validateAt_below
    have hbelow : level + 1 ≤ maxDepth + 1 := Nat.succ_le_succ hwithin
    have hleft := @ihl (path ++ ".left") (level + 1) hbelow
    have hright := @ihr (path ++ ".right") (level + 1) hbelow
    rw [validateAt, if_neg (Nat.not_lt.mpr hwithin)]
    cases hl : validateAt (path ++ ".left") (level + 1) left with
    | error e =>
      rw [hl] at hleft
      obtain ⟨address, offence, hfirst, rfl⟩ := hleft
      have hside : Side.left = .right → ∀ rest offence',
          ¬ left.OffendsAt (level + 1) rest offence' := fun h => by cases h
      exact ⟨.left :: address, offence, hfirst.logical hwithin .left hside, rfl⟩
    | ok u =>
      rw [hl] at hleft
      dsimp only
      cases hr : validateAt (path ++ ".right") (level + 1) right with
      | error e =>
        rw [hr] at hright
        obtain ⟨address, offence, hfirst, rfl⟩ := hright
        exact ⟨.right :: address, offence, hfirst.logical hwithin .right (fun _ => hleft), rfl⟩
      | ok u =>
        rw [hr] at hright
        intro address offence hoffends
        cases address with
        | nil => exact Expr.not_commits_logical hwithin (Expr.offendsAt_nil_iff.mp hoffends)
        | cons side rest =>
          have hside := Expr.offendsAt_cons_iff.mp hoffends
          cases side with
          | left => exact hleft rest offence hside
          | right => exact hright rest offence hside

theorem reports_validate (path : String) (expr : Expr) :
    expr.Reports path 1 (validate expr path) :=
  reports_validateAt (Nat.succ_le_succ (Nat.zero_le maxDepth))

/-- The check of a whole tree ends in an error exactly if it is that of the first offence. -/
theorem validate_eq_error_iff {expr : Expr} {path : String} {e : RuleError} :
    validate expr path = .error e ↔ ∃ address offence, expr.FirstOffence 1 address offence ∧
      e = .invalidNode (offence.defectAt (address.pathFrom path)) := by
  have hreports := reports_validate path expr
  constructor
  · intro h
    rwa [h] at hreports
  · rintro ⟨address, offence, hfirst, rfl⟩
    cases hcheck : validate expr path with
    | error e =>
      rw [hcheck] at hreports
      obtain ⟨other, offence', hfirst', rfl⟩ := hreports
      obtain ⟨rfl, rfl⟩ := hfirst.unique hfirst'
      rfl
    | ok u =>
      rw [hcheck] at hreports
      exact absurd hfirst.1 (hreports address offence)

/-- The check of a whole tree fails exactly if some node offends. -/
theorem exists_error_of_validate_iff {expr : Expr} {path : String} :
    (∃ e, validate expr path = .error e) ↔ ∃ address offence, expr.OffendsAt 1 address offence := by
  have hreports := reports_validate path expr
  cases hcheck : validate expr path with
  | error e =>
    rw [hcheck] at hreports
    obtain ⟨address, offence, hfirst, -⟩ := hreports
    exact iff_of_true ⟨e, rfl⟩ ⟨address, offence, hfirst.1⟩
  | ok u =>
    rw [hcheck] at hreports
    constructor
    · rintro ⟨e, h⟩
      cases h
    · rintro ⟨address, offence, hoffends⟩
      exact absurd hoffends (hreports address offence)

/-- A tree has an offending node exactly if a comparison within the first 100 levels has no field or
a number that is not finite, or some node stands on level 101. -/
theorem Expr.exists_offendsAt_iff {expr : Expr} :
    (∃ address offence, expr.OffendsAt 1 address offence) ↔
      (∃ address operator field value,
        expr.at? address = some (.comparison operator field value) ∧ address.length + 1 ≤ 100 ∧
          (field = "" ∨ ¬ value.IsFinite)) ∨
      ∃ address node, expr.at? address = some node ∧ address.length + 1 = 101 := by
  constructor
  · rintro ⟨address, offence, node, hat, hcommits⟩
    by_cases hlevel : 1 + address.length ≤ maxDepth
    · cases node with
      | comparison operator field value =>
        have hbad := (exists_commits_comparison_iff hlevel).mp ⟨offence, hcommits⟩
        rw [Nat.add_comm] at hlevel
        exact .inl ⟨address, operator, field, value, hat, hlevel, hbad⟩
      | logical operator left right => exact absurd hcommits (not_commits_logical hlevel)
    · cases hcommits with
      | tooDeep hlevel' =>
        rw [Nat.add_comm] at hlevel'
        exact .inr ⟨address, node, hat, hlevel'⟩
      | emptyField hlevel' => exact absurd hlevel' hlevel
      | notFinite hlevel' => exact absurd hlevel' hlevel
  · rintro (⟨address, operator, field, value, hat, hlevel, hbad⟩ | ⟨address, node, hat, hlevel⟩)
    · rw [Nat.add_comm] at hlevel
      obtain ⟨offence, hcommits⟩ := (@exists_commits_comparison_iff _ operator _ _ hlevel).mpr hbad
      exact ⟨address, offence, _, hat, hcommits⟩
    · rw [Nat.add_comm] at hlevel
      exact ⟨address, .tooDeep, node, hat, .tooDeep hlevel⟩

/-- The check refuses exactly the trees that have, within the first 100 levels, a comparison without
a field or with a number that is not finite, or that have a node on level 101. It ends in an error
exactly if this is the error of the first offending node in depth, from left to right: the node
stands at its address and commits the offence there, no node before it commits anything, and the
message has the path that takes the steps of the address from where the check started. -/
theorem validate_reports_first_offence (expr : Expr) (path : String) :
    ((∃ e, validate expr path = .error e) ↔
      (∃ address operator field value,
        expr.at? address = some (.comparison operator field value) ∧ address.length + 1 ≤ 100 ∧
          (field = "" ∨ ¬ value.IsFinite)) ∨
      ∃ address node, expr.at? address = some node ∧ address.length + 1 = 101) ∧
    ∀ e, validate expr path = .error e ↔ ∃ address offence,
      expr.OffendsAt 1 address offence ∧
      (address.IsFirst fun other => ∃ offence', expr.OffendsAt 1 other offence') ∧
      e = .invalidNode (offence.defectAt (address.pathFrom path)) ∧
      e.message = "无效的表达式节点: " ++ ("节点 '" ++ address.pathFrom path ++ offence.wording) := by
  refine ⟨exists_error_of_validate_iff.trans Expr.exists_offendsAt_iff, fun e => ?_⟩
  rw [validate_eq_error_iff]
  constructor
  · rintro ⟨address, offence, ⟨hoffends, hfirst⟩, rfl⟩
    exact ⟨address, offence, hoffends, hfirst, rfl, offence.message_defectAt _⟩
  · rintro ⟨address, offence, hoffends, hfirst, heq, -⟩
    exact ⟨address, offence, ⟨hoffends, hfirst⟩, heq⟩

example : validate (.logical .or (.comparison .equal "age" (.boolean true))
    (.comparison .equal "" (.boolean true))) "rule" =
      .error (.invalidNode (.emptyFieldAt "rule.right")) := by
  decide +kernel

end PostfixRules
