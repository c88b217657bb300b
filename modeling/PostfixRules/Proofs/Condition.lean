import PostfixRules.Proofs.Number.Comparison
import PostfixRules.Proofs.Text.ByteOrder
import PostfixRules.Proofs.Validation

/-!
# The five operators on one value

Two numbers, and two texts, have an order, and each of the five operators says something of it.
Equality is decided without it, by a comparison of its own, but holds exactly where the order says
so: no number is compared with one that is not finite, and different texts have different bytes. All
other pairs of a value and a literal have no order. The four operators that need one refuse them,
and equality holds of equal truth values and of nothing else.
-/

namespace PostfixRules

/-! ## What the operators say of an order -/

namespace ComparisonOperator

/-- Exactly one of the three sharp operators holds. -/
theorem count_holds (order : Ordering) :
    [less.holds order, equal.holds order, greater.holds order].count true = 1 := by
  cases order <;> rfl

theorem holds_atLeast (order : Ordering) : atLeast.holds order = !less.holds order := by
  cases order <;> rfl

theorem holds_atMost (order : Ordering) : atMost.holds order = !greater.holds order := by
  cases order <;> rfl

theorem isOrdering_eq_true_iff {operator : ComparisonOperator} :
    operator.isOrdering = true ↔ operator ≠ .equal := by
  cases operator <;> decide

end ComparisonOperator

namespace Condition

/-! ## Pairs that have an order -/

/-- A value and a literal that are both numbers or both texts. -/
inductive Comparable : Json → Literal → Prop where
  | number (actual : Json.Number) (expected : Double) :
    Comparable (.number actual) (.number expected)
  | string (actual expected : String) : Comparable (.string actual) (.string expected)

/-- Two numbers, if the one of the literal is finite, and two texts have an order, and they are
equal exactly if it says so. -/
theorem Comparable.exists_order? {actual : Json} {expected : Literal}
    (h : Comparable actual expected) (hfinite : expected.IsFinite) :
    ∃ order, order? actual expected = some order ∧
      equals actual expected = ComparisonOperator.equal.holds order := by
  cases h with
  | number n x =>
    cases x with
    | finite y =>
      refine ⟨compare n.value y.value, n.order?_exact y, ?_⟩
      rw [equals, n.order?_exact y]
      rfl
    | infinity negative => cases hfinite
    | nan => cases hfinite
  | string s t =>
    refine ⟨Text.byteOrder s t, rfl, ?_⟩
    rw [equals, ComparisonOperator.holds, Bool.eq_iff_iff, beq_iff_eq, beq_iff_eq]
    exact Std.LawfulEqCmp.compare_eq_iff_eq.symm

/-- All other pairs have no order. -/
theorem order?_eq_none {actual : Json} {expected : Literal} (h : ¬ Comparable actual expected) :
    order? actual expected = none := by
  unfold order?
  split
  · exact absurd (.number _ _) h
  · exact absurd (.string _ _) h
  · rfl

/-- Of all other pairs only equal truth values are equal. -/
theorem equals_eq_true_iff {actual : Json} {expected : Literal} (h : ¬ Comparable actual expected) :
    equals actual expected = true ↔ ∃ b, actual = .bool b ∧ expected = .boolean b := by
  unfold equals
  split
  · exact absurd (.number _ _) h
  · exact absurd (.string _ _) h
  · rw [beq_iff_eq]
    constructor
    · rintro rfl
      exact ⟨_, rfl, rfl⟩
    · rintro ⟨b, hb, hc⟩
      cases hb
      cases hc
      rfl
  · next hbool =>
    refine iff_of_false Bool.false_ne_true ?_
    rintro ⟨b, hactual, hexpected⟩
    exact hbool b b hactual hexpected

/-! ## Verdicts -/

section Verdict

variable {field : String} {actual : Json} {expected : Literal} (hfield : field ≠ "")
  (hfinite : expected.IsFinite)

include hfield hfinite

/-- A sound comparison of a value that is there for equality. -/
theorem verdict_equal :
    verdict field (some actual) .equal expected = .ok (equals actual expected) := by
  unfold verdict
  rw [check_eq_ok_iff.mpr ⟨hfield, hfinite⟩]
  rfl

/-- A sound comparison of a value that is there for an order. -/
theorem verdict_ordering {operator : ComparisonOperator} (hoperator : operator ≠ .equal) :
    verdict field (some actual) operator expected =
      match order? actual expected with
      | some order => .ok (operator.holds order)
      | none =>
        .error (.typeMismatch operator.symbol field (orderedKinds expected) actual.kindName) := by
  unfold verdict
  rw [check_eq_ok_iff.mpr ⟨hfield, hfinite⟩]
  exact if_pos (ComparisonOperator.isOrdering_eq_true_iff.mpr hoperator)

/-- Where there is an order, all five operators read their verdicts off it. -/
theorem Comparable.verdict_eq (h : Comparable actual expected) {order : Ordering}
    (horder : order? actual expected = some order) (operator : ComparisonOperator) :
    verdict field (some actual) operator expected = .ok (operator.holds order) := by
  by_cases hoperator : operator = .equal
  · obtain ⟨order', horder', hequals⟩ := h.exists_order? hfinite
    rw [horder, Option.some.injEq] at horder'
    rw [hoperator, verdict_equal hfield hfinite, hequals, horder']
  · rw [verdict_ordering hfield hfinite hoperator, horder]

end Verdict

/-- Between two numbers, and between two texts, exactly one of "less", "equal" and "greater" holds,
and the other two operators are the negations of "less" and "greater". Between any other value and
literal the four operators that need an order find a mismatch of types, and equality holds of equal
truth values only. -/
theorem operators_agree_on_value {field : String} (hfield : field ≠ "") (actual : Json)
    {expected : Literal} (hfinite : expected.IsFinite) :
    (Comparable actual expected → ∃ less equal greater : Bool,
      verdict field (some actual) .less expected = .ok less ∧
      verdict field (some actual) .equal expected = .ok equal ∧
      verdict field (some actual) .greater expected = .ok greater ∧
      [less, equal, greater].count true = 1 ∧
      verdict field (some actual) .atLeast expected = .ok (!less) ∧
      verdict field (some actual) .atMost expected = .ok (!greater)) ∧
    (¬ Comparable actual expected →
      (∀ operator, operator ≠ .equal → verdict field (some actual) operator expected =
        .error (.typeMismatch operator.symbol field (orderedKinds expected) actual.kindName)) ∧
      ∃ same : Bool, verdict field (some actual) .equal expected = .ok same ∧
        (same = true ↔ ∃ b, actual = .bool b ∧ expected = .boolean b)) := by
  constructor
  · intro h
    obtain ⟨order, horder, -⟩ := h.exists_order? hfinite
    have hverdict := h.verdict_eq hfield hfinite horder
    refine ⟨_, _, _, hverdict .less, hverdict .equal, hverdict .greater,
      ComparisonOperator.count_holds order, ?_, ?_⟩
    · rw [hverdict, ComparisonOperator.holds_atLeast]
    · rw [hverdict, ComparisonOperator.holds_atMost]
  · intro h
    constructor
    · intro operator hoperator
      rw [verdict_ordering hfield hfinite hoperator, order?_eq_none h]
    · exact ⟨_, verdict_equal hfield hfinite, equals_eq_true_iff h⟩

/-- Of an integer and the double nearest to it, which is another number, exactly one of the three
holds; a list has no order with the double. -/
theorem operators_agree_on_value_adjacent :
    ∃ (actual : Json) (expected : Literal), "n" ≠ "" ∧ expected.IsFinite ∧
      actual = .number (.whole ⟨9007199254740993, by decide, by decide⟩) ∧
      expected = .number (Double.ofInt 9007199254740993) ∧ Comparable actual expected ∧
      (∃ less equal greater : Bool,
        verdict "n" (some actual) .less expected = .ok less ∧
        verdict "n" (some actual) .equal expected = .ok equal ∧
        verdict "n" (some actual) .greater expected = .ok greater ∧
        [less, equal, greater].count true = 1) ∧
      verdict "n" (some (.array [actual])) .atMost expected =
        .error (.typeMismatch "<=" "n" "number" "array") := by
  have hfield : "n" ≠ "" := by decide
  have hfinite : (Literal.number (Double.ofInt 9007199254740993)).IsFinite := by
    change (Double.ofInt 9007199254740993).isFinite = true
    decide +kernel
  have hcomparable : Comparable (.number (.whole ⟨9007199254740993, by decide, by decide⟩))
      (.number (Double.ofInt 9007199254740993)) := .number _ _
  obtain ⟨less, equal, greater, hless, hequal, hgreater, hcount, -⟩ :=
    (operators_agree_on_value hfield _ hfinite).1 hcomparable
  have hlist := (operators_agree_on_value hfield
    (.array [.number (.whole ⟨9007199254740993, by decide, by decide⟩)]) hfinite).2 (by rintro ⟨⟩)
  exact ⟨_, _, hfield, hfinite, rfl, rfl, hcomparable,
    ⟨less, equal, greater, hless, hequal, hgreater, hcount⟩, hlist.1 .atMost (by decide)⟩

end Condition

end PostfixRules
