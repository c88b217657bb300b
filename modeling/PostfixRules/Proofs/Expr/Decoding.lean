import PostfixRules.Proofs.Expr.Codec
import PostfixRules.Proofs.Number.Integer
import PostfixRules.Proofs.Outcome

/-!
# What submitted forms denote

Whatever way a JSON value spells a tree, the numbers of the tree are finite, since a JSON document
has no others. What may still be wrong with a denoted tree is that it is too deep or has a
comparison without a field. Either way the check finds a defect of the node, so that a form is
refused for itself, or else denotes a tree that may be run.
-/

namespace PostfixRules

/-! ## Numbers -/

theorem Double.isFinite_ofInt {i : Int} (hi : i.natAbs ≤ 2 ^ 64) : (ofInt i).isFinite = true := by
  obtain ⟨x, hx, -⟩ := ofInt_finite hi
  rw [hx]
  rfl

/-- The number of a document is near a finite double. -/
theorem Json.Number.isFinite_toDouble (n : Json.Number) : n.toDouble.isFinite = true := by
  cases n with
  | whole n =>
    have hlower := n.lower
    have hupper := n.upper
    exact Double.isFinite_ofInt (by omega)
  | float x => rfl

/-- A literal that a document gives is finite. -/
theorem Literal.isFinite_of_ofParts? {kind : String} {content : Json} {value : Literal}
    (h : ofParts? kind content = some value) : value.IsFinite := by
  revert h
  fun_cases ofParts? kind content with
  | case1 _ n =>
    intro h
    cases h
    exact n.isFinite_toDouble
  | case3 | case5 =>
    intro h
    cases h
    trivial
  | case2 | case4 | case6 | case7 =>
    intro h
    cases h

theorem Literal.isFinite_of_ofJson? {json : Json} {value : Literal}
    (h : ofJson? json = some value) : value.IsFinite := by
  revert h
  fun_cases ofJson? json with
  | case1 members =>
    intro h
    obtain ⟨kind, -, h⟩ := Option.bind_eq_some_iff.mp h
    obtain ⟨content, -, h⟩ := Option.bind_eq_some_iff.mp h
    exact isFinite_of_ofParts? h
  | case2 kind content =>
    intro h
    obtain ⟨kind, -, h⟩ := Option.bind_eq_some_iff.mp h
    exact isFinite_of_ofParts? h
  | case3 =>
    intro h
    cases h

/-! ## Trees -/

/-- The only value under a key is one of the members. -/
theorem mem_of_sole? {α : Type} {key : String} {members : List (String × α)} {value : α}
    (h : sole? key members = some value) : (key, value) ∈ members := by
  revert h
  fun_cases sole? key members with
  | case1 k v hfilter =>
    intro h
    cases h
    have hmem : (k, value) ∈ members.filter fun member => member.1 == key := by
      rw [hfilter]
      exact List.mem_singleton_self _
    obtain ⟨hmem, hkey⟩ := List.mem_filter.mp hmem
    rw [← beq_iff_eq.mp hkey]
    exact hmem
  | case2 =>
    intro h
    cases h

namespace Expr

theorem exists_of_comparisonOf? {operator field value : Json} {expr : Expr}
    (h : comparisonOf? operator field value = some expr) :
    ∃ operator' field' literal, Literal.ofJson? value = some literal ∧
      expr = .comparison operator' field' literal := by
  obtain ⟨operator', -, h⟩ := Option.bind_eq_some_iff.mp h
  obtain ⟨field', -, h⟩ := Option.bind_eq_some_iff.mp h
  obtain ⟨literal, hliteral, rfl⟩ := Option.map_eq_some_iff.mp h
  exact ⟨operator', field', literal, hliteral, rfl⟩

theorem exists_of_logicalOf? {operator : Json} {left right : Option Expr} {expr : Expr}
    (h : logicalOf? operator left right = some expr) :
    ∃ operator' l r, left = some l ∧ right = some r ∧ expr = .logical operator' l r := by
  obtain ⟨operator', -, h⟩ := Option.bind_eq_some_iff.mp h
  obtain ⟨l, hl, h⟩ := Option.bind_eq_some_iff.mp h
  obtain ⟨r, hr, rfl⟩ := Option.map_eq_some_iff.mp h
  exact ⟨operator', l, r, hl, hr, rfl⟩

/-- The numbers of a comparison that a document gives are finite. -/
theorem hasFiniteNumbers_of_comparisonOf? {operator field value : Json} {expr : Expr}
    (h : comparisonOf? operator field value = some expr) : expr.HasFiniteNumbers := by
  obtain ⟨operator', field', literal, hliteral, rfl⟩ := exists_of_comparisonOf? h
  exact Literal.isFinite_of_ofJson? hliteral

/-- A logical node has finite numbers if its sides have. -/
theorem hasFiniteNumbers_of_logicalOf? {operator : Json} {left right : Option Expr} {expr : Expr}
    (h : logicalOf? operator left right = some expr)
    (hleft : ∀ l, left = some l → l.HasFiniteNumbers)
    (hright : ∀ r, right = some r → r.HasFiniteNumbers) : expr.HasFiniteNumbers := by
  obtain ⟨operator', l, r, hl, hr, rfl⟩ := exists_of_logicalOf? h
  exact ⟨hleft l hl, hright r hr⟩

/-- The numbers of a tree that a document gives are finite, at the root and below it. The induction
is over the values inside a value, in the order in which they are read. -/
theorem hasFiniteNumbers_of_ofJsonAt? {nested : Bool} {value : Json} {expr : Expr}
    (h : ofJsonAt? nested value = some expr) : expr.HasFiniteNumbers := by
  induction nested, value using ofJsonAt?.induct
      (motive_2 := fun parts => ∀ tree, some tree ∈ partTrees parts → tree.HasFiniteNumbers)
      (motive_3 := fun members => ∀ key tree, (key, some tree) ∈ memberTrees members →
        tree.HasFiniteNumbers) generalizing expr with
  | case1 nested members ih =>
    have hside (key : String) (tree : Expr)
        (hkey : (sole? key (memberTrees members)).join = some tree) : tree.HasFiniteNumbers :=
      ih key tree (mem_of_sole? (Option.join_eq_some_iff.mp hkey))
    rw [ofJsonAt?] at h
    obtain ⟨kind, -, h⟩ := Option.bind_eq_some_iff.mp h
    cases kind with
    | logical =>
      obtain ⟨operator, -, h⟩ := Option.bind_eq_some_iff.mp h
      exact hasFiniteNumbers_of_logicalOf? h (hside "left") (hside "right")
    | comparison =>
      obtain ⟨operator, -, h⟩ := Option.bind_eq_some_iff.mp h
      obtain ⟨field, -, h⟩ := Option.bind_eq_some_iff.mp h
      obtain ⟨value, -, h⟩ := Option.bind_eq_some_iff.mp h
      exact hasFiniteNumbers_of_comparisonOf? h
  | case2 nested tag parts ih =>
    unfold ofJsonAt? at h
    obtain ⟨kind, -, h⟩ := Option.bind_eq_some_iff.mp h
    cases kind with
    | logical =>
      dsimp only at h
      split at h
      · rename_i htrees
        rw [htrees] at ih
        exact hasFiniteNumbers_of_logicalOf? h (fun l hl => ih l (by simp [hl]))
          (fun r hr => ih r (by simp [hr]))
      · cases h
    | comparison =>
      dsimp only at h
      split at h
      · exact hasFiniteNumbers_of_comparisonOf? h
      · cases h
  | case3 value nested hobject harray =>
    rw [ofJsonAt?] at h
    · cases h
    · exact hobject
    · exact harray
  | case4 =>
    rename_i htree
    cases htree
  | case5 value rest ihvalue ihrest =>
    rename_i tree htree
    rw [partTrees, List.mem_cons] at htree
    rcases htree with htree | htree
    · exact ihvalue htree.symm
    · exact ihrest tree htree
  | case6 =>
    rename_i htree
    cases htree
  | case7 key value rest ihvalue ihrest =>
    rename_i other tree htree
    rw [memberTrees, List.mem_cons] at htree
    rcases htree with htree | htree
    · exact ihvalue (Prod.mk.inj htree).2.symm
    · exact ihrest other tree htree

/-! ## Admission -/

/-- Leaves are sound if their numbers are finite and none of their fields is empty. -/
theorem hasSoundLeaves_iff {expr : Expr} :
    expr.HasSoundLeaves ↔ expr.HasFiniteNumbers ∧ "" ∉ expr.fields := by
  induction expr with
  | comparison operator field value =>
    simp only [HasSoundLeaves, HasFiniteNumbers, fields, List.mem_singleton, ne_comm, and_comm]
  | logical operator left right ihl ihr =>
    rw [HasSoundLeaves, HasFiniteNumbers, fields, ihl, ihr, List.mem_append, not_or]
    exact and_and_and_comm

/-- A tree that a document gives is sound unless it is too deep or lacks a field. -/
theorem isSound_iff_of_ofJson? {form : Json} {expr : Expr} (h : ofJson? form = some expr) :
    expr.IsSound ↔ "" ∉ expr.fields ∧ expr.depth ≤ maxDepth := by
  have hfinite : expr.HasFiniteNumbers := hasFiniteNumbers_of_ofJsonAt? h
  constructor
  · intro hsound
    exact ⟨(hasSoundLeaves_iff.mp hsound.leaves).2, hsound.depth_le⟩
  · rintro ⟨hfields, hdepth⟩
    exact ⟨hdepth, hasSoundLeaves_iff.mpr ⟨hfinite, hfields⟩⟩

/-- The tree that a submitted form denotes, if it denotes one and the tree passes the check. -/
def admitted (form : Json) : Except RuleError Expr :=
  (decode form).bind fun expr => (validate expr rootPath).map fun _ => expr

/-- A form is admitted as a tree if it denotes the tree and the tree may be run. -/
theorem admitted_eq_ok_iff {form : Json} {expr : Expr} :
    admitted form = .ok expr ↔ ofJson? form = some expr ∧ expr.IsSound := by
  rw [admitted, decode]
  cases hform : ofJson? form with
  | none => simp [Except.bind]
  | some tree =>
    change (validate tree rootPath).map (fun _ => tree) = .ok expr ↔ _
    rw [Outcome.map_eq_ok_iff, Option.some.injEq]
    constructor
    · rintro ⟨u, hvalid, rfl⟩
      exact ⟨rfl, validate_eq_ok_iff.mp hvalid⟩
    · rintro ⟨rfl, hsound⟩
      exact ⟨(), validate_eq_ok_iff.mpr hsound, rfl⟩

/-- A form that is not admitted has a defect of its own. -/
theorem exists_defect_of_admitted {form : Json} {e : RuleError} (h : admitted form = .error e) :
    ∃ defect, e = .invalidNode defect := by
  rw [admitted, decode] at h
  cases hform : ofJson? form with
  | none =>
    rw [hform] at h
    cases h
    exact ⟨_, rfl⟩
  | some tree =>
    rw [hform] at h
    exact exists_defect_of_validateAt (Outcome.map_eq_error_iff.mp h)

end Expr

end PostfixRules
