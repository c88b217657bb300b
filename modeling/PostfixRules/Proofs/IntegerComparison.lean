import PostfixRules.Evaluation
import PostfixRules.Proofs.Canonical
import PostfixRules.Proofs.Condition

/-!
# Comparing integers

A rule that compares a field with an integer compares exactly, but with the double nearest to the
integer, since a literal is a double from the moment it is read. Record and rule therefore agree
with the integers as long as the integer in the rule is the value of a double.
-/

namespace PostfixRules

/-- The relation of integers that an operator stands for. -/
def ComparisonOperator.HoldsOf : ComparisonOperator → Int → Int → Prop
  | .greater, j, k => j > k
  | .less, j, k => j < k
  | .equal, j, k => j = k
  | .atLeast, j, k => j ≥ k
  | .atMost, j, k => j ≤ k

theorem ComparisonOperator.holds_compare (operator : ComparisonOperator) (j k : Int) :
    operator.holds (compare j k) = true ↔ operator.HoldsOf j k := by
  rcases Int.lt_trichotomy j k with h | rfl | h
  · rw [Int.compare_eq_lt.mpr h]
    cases operator <;> simp [holds, HoldsOf] <;> omega
  · rw [Int.compare_eq_eq.mpr rfl]
    cases operator <;> simp [holds, HoldsOf]
  · rw [Int.compare_eq_gt.mpr h]
    cases operator <;> simp [holds, HoldsOf] <;> omega

/-- The verdict on a field with a number, when the numbers have an order. -/
theorem Condition.verdict_number {field : String} (hfield : field ≠ "") {n : Json.Number}
    {x : Finite} {order : Ordering} (horder : n.order? (.finite x) = some order)
    (operator : ComparisonOperator) :
    verdict field (some (.number n)) operator (.number (.finite x)) =
      .ok (operator.holds order) := by
  have hfinite : Literal.IsFinite (.number (.finite x)) := rfl
  exact (Comparable.number n (.finite x)).verdict_eq hfield hfinite horder operator

/-- The only field of a record of one field. -/
theorem Record.field?_ofPairs_singleton (field : String) (n : Json.Number) :
    (ofPairs [(field, .number n)]).field? field = some (.number n) := by
  have hdata : (ofPairs [(field, .number n)]).data = .object [(field, .number n)] := rfl
  simp [field?, hdata, Json.member?, Json.isNull]

/-- The decimal text of an integer is a word that spells no operator. -/
theorem Text.isWord_signedDecimal (i : Int) :
    Text.IsWord (String.ofList (Text.signedDecimal i)) := by
  have hd := isDigit_of_mem_decimal i.natAbs
  unfold signedDecimal
  constructor
  · intro hempty
    have hnil := congrArg String.toList hempty
    rw [String.toList_ofList] at hnil
    split_ifs at hnil
    · cases hnil
    · exact decimal_ne_nil _ hnil
  · intro c hc
    rw [String.toList_ofList] at hc
    split_ifs at hc
    · rcases List.mem_cons.mp hc with rfl | hdigit
      · decide
      · exact isBlank_of_isDigit (hd c hdigit)
    · exact isBlank_of_isDigit (hd c hc)

/-- The decimal text of an integer denotes the nearest double. -/
theorem Literal.resolve_signedDecimal {i : Int} {x : Finite} (h : Double.ofInt i = .finite x) :
    resolve (String.ofList (Text.signedDecimal i)) = .number (.finite x) := by
  apply resolve_of_read
  rw [String.toList_ofList, Double.read?_signedDecimal, h]

theorem Text.signedDecimal_not_mem_operatorWords {i : Int} {x : Finite}
    (h : Double.ofInt i = .finite x) :
    String.ofList (Text.signedDecimal i) ∉ operatorWords := by
  intro hoperator
  have hstring := Literal.isString_resolve_operator hoperator
  rw [Literal.resolve_signedDecimal h] at hstring
  cases hstring

/-- An integer of a record is compared exactly with the whole double that is nearest to the integer
of the rule, and that double is the integer exactly if the integer is the value of some double. -/
theorem evaluate_integer_comparison (operator : ComparisonOperator) {field : String}
    (hfield : IsPlainWord field) (j k : Whole) :
    ∃ (expr : Expr) (x : Finite) (b : Bool),
      parse (field ++ " " ++ String.ofList (Text.signedDecimal k.value) ++ " " ++
        operator.symbol) = .ok expr ∧
      evaluate expr (.ofPairs [(field, .number (.whole j))]) = .ok b ∧
      x.IsNearest k.value ∧ x.signedUnits = x.whole * (unitsPerOne : Int) ∧
      (b = true ↔ operator.HoldsOf j.value x.whole) ∧
      (x.whole = k.value ↔ ∃ y : Finite, y.signedUnits = k.value * (unitsPerOne : Int)) ∧
      (k.value.natAbs ≤ 2 ^ 53 → x.whole = k.value) := by
  have hk : k.value.natAbs ≤ 2 ^ 64 := by
    have := k.lower
    have := k.upper
    omega
  obtain ⟨x, hx, hnearest, hwhole, hlt⟩ := Double.ofInt_whole hk
  have hvalue := Finite.signedUnits_of_isWhole hwhole
  have hexact : x.whole = k.value ↔
      ∃ y : Finite, y.signedUnits = k.value * (unitsPerOne : Int) := by
    constructor
    · intro h
      exact ⟨x, by rw [hvalue, h]⟩
    · rintro ⟨y, hy⟩
      have hunits := hnearest.signedUnits_eq hy
      rw [hvalue] at hunits
      exact Int.eq_of_mul_eq_mul_right (Int.natCast_ne_zero.mpr unitsPerOne_pos.ne') hunits
  refine ⟨.comparison operator field (.number (.finite x)), x,
    operator.holds (compare j.value x.whole), ?_, ?_, hnearest, hvalue,
    operator.holds_compare j.value x.whole, hexact, fun hle =>
      hexact.mpr (Finite.exists_signedUnits_eq hle)⟩
  · rw [parse_comparison operator hfield (Text.isWord_signedDecimal _)
      (Text.signedDecimal_not_mem_operatorWords hx), Literal.resolve_signedDecimal hx]
  · simp only [evaluate, evaluateAt, show ¬ maxDepth < 1 by decide, if_false,
      Record.field?_ofPairs_singleton]
    exact Condition.verdict_number hfield.isWord.1 (Json.Number.order?_whole j hwhole hlt) operator

/-- The last whole number up to which all integers are doubles equals itself. -/
theorem evaluate_integer_comparison_two_pow :
    IsPlainWord "f" ∧ ∃ expr : Expr,
      parse ("f" ++ " " ++ String.ofList (Text.signedDecimal (2 ^ 53)) ++ " " ++ "=") = .ok expr ∧
      evaluate expr (.ofPairs [("f", .number (.whole ⟨2 ^ 53, by decide, by decide⟩))]) =
        .ok true := by
  have hfield : IsPlainWord "f" := by decide
  obtain ⟨expr, x, b, hparse, hevaluate, -, -, hb, -, hexact⟩ :=
    evaluate_integer_comparison .equal hfield ⟨2 ^ 53, by decide, by decide⟩
      ⟨2 ^ 53, by decide, by decide⟩
  have htrue : b = true := hb.mpr (hexact (by decide)).symm
  exact ⟨hfield, expr, hparse, by rw [hevaluate, htrue]⟩

/-- The next integer does not equal itself: the rule is read with the double below it. -/
theorem evaluate_equal_integer_false :
    IsPlainWord "f" ∧ ComparisonOperator.HoldsOf .equal 9007199254740993 9007199254740993 ∧
      (parse "f 9007199254740993 =").bind (fun expr =>
        evaluate expr (.ofPairs
          [("f", .number (.whole ⟨9007199254740993, by decide, by decide⟩))])) = .ok false :=
  ⟨by decide, rfl, by decide +kernel⟩

end PostfixRules
