import PostfixRules.Expr.Codec
import PostfixRules.Proofs.Json.Reader
import PostfixRules.Proofs.Validation

/-!
# Trees through JSON

The JSON form of a tree is nested one level deeper than the tree has levels, its keys do not repeat,
and it denotes the tree, provided that the numbers of the tree are finite; with a number that is not
finite it denotes nothing. All numbers of a sound tree are finite. A tree within the depth limit
also survives being written as a document.
-/

namespace PostfixRules

/-- Whether all numbers of the tree are finite. -/
def Expr.HasFiniteNumbers : Expr → Prop
  | .comparison _ _ value => value.IsFinite
  | .logical _ left right => left.HasFiniteNumbers ∧ right.HasFiniteNumbers

theorem Expr.HasSoundLeaves.hasFiniteNumbers {expr : Expr} (h : expr.HasSoundLeaves) :
    expr.HasFiniteNumbers := by
  induction expr with
  | comparison operator field value => exact h.2
  | logical operator left right ihl ihr => exact ⟨ihl h.1, ihr h.2⟩

namespace Literal

/-- A literal is denoted by its JSON form. -/
theorem ofJson?_toJson {value : Literal} (h : value.IsFinite) :
    ofJson? value.toJson = some value := by
  cases value with
  | number x =>
    cases x with
    | finite x => rfl
    | infinity negative => cases h
    | nan => cases h
  | string s => rfl
  | boolean b => rfl

/-- A number that is not finite has become the null value, which is the content of no literal. -/
theorem ofJson?_toJson_of_not_isFinite {value : Literal} (h : ¬ value.IsFinite) :
    ofJson? value.toJson = none := by
  cases value with
  | number x =>
    cases x with
    | finite x => exact absurd rfl h
    | infinity negative => rfl
    | nan => rfl
  | string s => exact absurd trivial h
  | boolean b => exact absurd trivial h

theorem nesting_toJson (value : Literal) : value.toJson.nesting = 1 := by
  cases value with
  | number x => cases x <;> rfl
  | string s => rfl
  | boolean b => rfl

theorem settle_toJson (value : Literal) : value.toJson.settle = value.toJson := by
  cases value with
  | number x => cases x <;> rfl
  | string s => rfl
  | boolean b => rfl

end Literal

namespace Expr

/-- The form of a tree is nested one level deeper than the tree has levels. -/
theorem nesting_toJson (expr : Expr) : expr.toJson.nesting = expr.depth + 1 := by
  induction expr with
  | comparison operator field value =>
    simp only [toJson, Json.nesting, Json.membersNesting, Literal.nesting_toJson, depth]
    rfl
  | logical operator left right ihl ihr =>
    simp only [toJson, Json.nesting, Json.membersNesting, ihl, ihr, depth]
    omega

/-- The form of a tree has no repeated keys to be settled. -/
theorem settle_toJson (expr : Expr) : expr.toJson.settle = expr.toJson := by
  induction expr with
  | comparison operator field value =>
    have hvalue := value.settle_toJson
    simp only [toJson, Json.settle, Json.settleMembers, hvalue]
    rfl
  | logical operator left right ihl ihr =>
    simp only [toJson, Json.settle, Json.settleMembers, ihl, ihr]
    rfl

theorem isNull_toJson (expr : Expr) : expr.toJson.isNull = false := by
  cases expr <;> rfl

/-- The form of a comparison denotes a comparison if the form of its value denotes a literal. -/
theorem ofJsonAt?_toJson_comparison (nested : Bool) (operator : ComparisonOperator) (field : String)
    (value : Literal) :
    ofJsonAt? nested (comparison operator field value).toJson =
      (Literal.ofJson? value.toJson).map (.comparison operator field) := by
  have hoperator := operator.ofSymbol?_symbol
  have hcomparison : comparisonOf? (.string operator.symbol) (.string field) value.toJson =
      (Literal.ofJson? value.toJson).map (.comparison operator field) := by
    simp only [comparisonOf?, Json.name?, Json.text?, Option.bind_some, hoperator]
  rw [toJson, ofJsonAt?]
  exact hcomparison

/-- The form of a logical node denotes one if the forms of both sides denote trees. -/
theorem ofJsonAt?_toJson_logical (nested : Bool) (operator : LogicalOperator) (left right : Expr) :
    ofJsonAt? nested (logical operator left right).toJson =
      (ofJsonAt? true left.toJson).bind fun l =>
        (ofJsonAt? true right.toJson).map (.logical operator l) := by
  have hoperator := operator.ofWord?_word
  have hlogical (l r : Option Expr) : logicalOf? (.string operator.word) l r =
      l.bind fun l => r.map (.logical operator l) := by
    simp only [logicalOf?, Json.name?, Option.bind_some, hoperator]
  rw [toJson, ofJsonAt?, ← hlogical]
  rfl

/-- A tree is denoted by its form, at the root and below it. -/
theorem ofJsonAt?_toJson {expr : Expr} (h : expr.HasFiniteNumbers) (nested : Bool) :
    ofJsonAt? nested expr.toJson = some expr := by
  induction expr generalizing nested with
  | comparison operator field value =>
    rw [ofJsonAt?_toJson_comparison, Literal.ofJson?_toJson h, Option.map_some]
  | logical operator left right ihl ihr =>
    rw [ofJsonAt?_toJson_logical, ihl h.1, ihr h.2, Option.bind_some, Option.map_some]

/-- With a number that is not finite, wherever it stands, a form denotes no tree. -/
theorem ofJsonAt?_toJson_of_not_hasFiniteNumbers {expr : Expr} (h : ¬ expr.HasFiniteNumbers)
    (nested : Bool) : ofJsonAt? nested expr.toJson = none := by
  induction expr generalizing nested with
  | comparison operator field value =>
    rw [ofJsonAt?_toJson_comparison, Literal.ofJson?_toJson_of_not_isFinite h, Option.map_none]
  | logical operator left right ihl ihr =>
    rw [ofJsonAt?_toJson_logical]
    by_cases hleft : left.HasFiniteNumbers
    · have hright : ¬ right.HasFiniteNumbers := fun hright => h ⟨hleft, hright⟩
      rw [ofJsonAt?_toJson hleft, ihr hright, Option.bind_some, Option.map_none]
    · rw [ihl hleft, Option.bind_none]

/-- Decoding undoes encoding. -/
theorem decode_toJson {expr : Expr} (h : expr.HasFiniteNumbers) :
    decode expr.toJson = .ok expr := by
  rw [decode, ofJson?, ofJsonAt?_toJson h]

/-- The form of a tree with a number that is not finite is refused. -/
theorem decode_toJson_of_not_hasFiniteNumbers {expr : Expr} (h : ¬ expr.HasFiniteNumbers) :
    decode expr.toJson = .error (.invalidNode .undecodable) := by
  rw [decode, ofJson?, ofJsonAt?_toJson_of_not_hasFiniteNumbers h]

/-- The document of a tree within the depth limit is read as the tree. -/
theorem ofText_write_toJson {expr : Expr} (h : expr.HasFiniteNumbers)
    (hdepth : expr.depth ≤ maxDepth) : ofText (Json.write expr.toJson) = .ok expr := by
  have hnesting : expr.toJson.nesting ≤ Json.nestingLimit := by
    rw [nesting_toJson]
    exact Nat.le_trans (Nat.succ_le_succ hdepth) (by decide)
  rw [ofText, Json.read_write hnesting]
  dsimp only
  rw [ofJson?, ofJsonAt?_toJson h]

/-- A form is decoded to the tree it was made of exactly if all numbers of the tree are finite, and
refused otherwise, so that no other tree has the form of a tree with finite numbers. Within the
depth limit the same tree is also read from the document written for it. -/
theorem decode_toJson_iff (expr : Expr) :
    (decode expr.toJson = .ok expr ↔ expr.HasFiniteNumbers) ∧
    (¬ expr.HasFiniteNumbers → decode expr.toJson = .error (.invalidNode .undecodable)) ∧
    (expr.HasFiniteNumbers → ∀ other : Expr, other.toJson = expr.toJson → other = expr) ∧
    (expr.HasFiniteNumbers → expr.depth ≤ maxDepth →
      ofText (Json.write expr.toJson) = .ok expr) := by
  refine ⟨⟨?_, decode_toJson⟩, decode_toJson_of_not_hasFiniteNumbers, ?_, ofText_write_toJson⟩
  · intro hdecode
    by_contra hinfinite
    rw [decode_toJson_of_not_hasFiniteNumbers hinfinite] at hdecode
    cases hdecode
  · intro hfinite other hforms
    have hdecode := decode_toJson hfinite
    by_cases hother : other.HasFiniteNumbers
    · rw [← hforms, decode_toJson hother] at hdecode
      exact Except.ok.inj hdecode
    · rw [← hforms, decode_toJson_of_not_hasFiniteNumbers hother] at hdecode
      cases hdecode

/-- A number, the text that spells it, a truth value and its name have four forms, each of which is
decoded to what it was made of. -/
example : [Literal.number (Double.ofInt 30), .string "30", .boolean true, .string "true"].map
      (fun value => decode (comparison .equal "f" value).toJson) =
    [Literal.number (Double.ofInt 30), .string "30", .boolean true, .string "true"].map
      (fun value => .ok (comparison .equal "f" value)) := by
  decide +kernel

end Expr

end PostfixRules
