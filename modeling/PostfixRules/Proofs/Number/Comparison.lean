import Mathlib.Algebra.Order.Field.Rat
import PostfixRules.Condition
import PostfixRules.Proofs.Number.Integer

/-!
# Numbers are compared exactly

A number of a record and a finite double are compared as integers or as doubles, whichever their
kinds and magnitudes call for. Either way the outcome is the order of the rational numbers that they
denote. Comparing as doubles rounds an integer of the record; but the double that it is rounded to
is never the other one, and then the other one lies on the same side of the integer and of the
double.
-/

namespace PostfixRules

/-! ## Values -/

/-- The rational number that a finite double denotes; both zeros denote zero. -/
def Finite.value (x : Finite) : ℚ :=
  (x.signedUnits : ℚ) / (unitsPerOne : ℚ)

/-- The rational number that a number of a JSON document denotes. -/
def Json.Number.value : Json.Number → ℚ
  | .whole n => (n.value : ℚ)
  | .float x => x.value

/-- Counting in units keeps the order. -/
theorem compare_div_unitsPerOne (a b : ℤ) :
    compare ((a : ℚ) / (unitsPerOne : ℚ)) ((b : ℚ) / (unitsPerOne : ℚ)) = compare a b := by
  have hpos : (0 : ℚ) < (unitsPerOne : ℚ) := Nat.cast_pos.mpr unitsPerOne_pos
  have hmono : StrictMono fun i : ℤ => (i : ℚ) / (unitsPerOne : ℚ) := by
    intro i j hij
    exact div_lt_div_of_pos_right (Int.cast_lt.mpr hij) hpos
  rw [← cmp_eq_compare, ← cmp_eq_compare]
  exact hmono.cmp_map_eq a b

/-- The order of two doubles is that of the numbers that they denote. -/
theorem Finite.order_eq_compare (x y : Finite) : x.order y = compare x.value y.value :=
  (compare_div_unitsPerOne x.signedUnits y.signedUnits).symm

/-- The order of an integer and a double is that of their units. -/
theorem Finite.compare_intCast_value (i : ℤ) (x : Finite) :
    compare (i : ℚ) x.value = compare (i * (unitsPerOne : ℤ)) x.signedUnits := by
  have hne : (unitsPerOne : ℚ) ≠ 0 := Nat.cast_ne_zero.mpr unitsPerOne_pos.ne'
  have hcast : (i : ℚ) = ((i * (unitsPerOne : ℤ) : ℤ) : ℚ) / (unitsPerOne : ℚ) := by
    rw [Int.cast_mul, Int.cast_natCast, mul_div_cancel_right₀ _ hne]
  rw [hcast, value, compare_div_unitsPerOne]

/-! ## Both ways of comparing -/

/-- A whole number and a whole double below `2 ^ 127` are compared exactly. -/
theorem Json.Number.order?_whole (j : Whole) {x : Finite} (hwhole : x.isWhole = true)
    (hlt : x.units < 2 ^ 127 * unitsPerOne) :
    order? (.whole j) (.finite x) = some (compare j.value x.whole) := by
  simp only [order?, hwhole, hlt, decide_true, Bool.and_self, if_true]

/-- A whole number and any other double are compared as doubles. -/
theorem Json.Number.order?_rounded (j : Whole) {x : Finite}
    (h : ¬ (x.isWhole = true ∧ x.units < 2 ^ 127 * unitsPerOne)) :
    order? (.whole j) (.finite x) = (Double.ofInt j.value).order? (.finite x) := by
  by_cases hwhole : x.isWhole = true
  · have hlt : ¬ x.units < 2 ^ 127 * unitsPerOne := fun hlt => h ⟨hwhole, hlt⟩
    simp only [order?, hwhole, hlt, decide_false, Bool.and_false, Bool.false_eq_true, if_false,
      toDouble]
  · simp only [order?, hwhole, Bool.false_and, Bool.false_eq_true, if_false, toDouble]

namespace Finite

theorem natAbs_signedUnits (x : Finite) : x.signedUnits.natAbs = x.units := by
  unfold signedUnits
  split_ifs <;> omega

/-- An integer and a whole double are ordered as the integer and the whole part. -/
theorem compare_whole {x : Finite} (h : x.isWhole = true) (i : ℤ) :
    compare i x.whole = compare (i : ℚ) x.value := by
  have hpos : (0 : ℤ) < (unitsPerOne : ℤ) := Int.natCast_pos.mpr unitsPerOne_pos
  have hmono : StrictMono fun j : ℤ => j * (unitsPerOne : ℤ) := by
    intro j k hjk
    exact Int.mul_lt_mul_of_pos_right hjk hpos
  rw [compare_intCast_value, signedUnits_of_isWhole h, ← cmp_eq_compare, ← cmp_eq_compare]
  exact (hmono.cmp_map_eq i x.whole).symm

/-- A double that differs from the one nearest to an integer lies on the same side of both. -/
theorem IsNearest.compare_eq {x y : Finite} {i : ℤ} (h : y.IsNearest i)
    (hne : y.signedUnits ≠ x.signedUnits) :
    compare y.signedUnits x.signedUnits = compare (i * (unitsPerOne : ℤ)) x.signedUnits := by
  have hnear := h.nearest x
  rcases Int.lt_trichotomy (i * (unitsPerOne : ℤ)) x.signedUnits with hlt | heq | hgt
  · have hlt' : y.signedUnits < x.signedUnits := by omega
    rw [Int.compare_eq_lt.mpr hlt, Int.compare_eq_lt.mpr hlt']
  · exact absurd ((h.signedUnits_eq heq.symm).trans heq) hne
  · have hgt' : x.signedUnits < y.signedUnits := by omega
    rw [Int.compare_eq_gt.mpr hgt, Int.compare_eq_gt.mpr hgt']

/-- Doubles of one value are whole, and below a bound, at the same time. -/
theorem isWhole_and_lt_of_signedUnits_eq {x y : Finite} (h : y.signedUnits = x.signedUnits)
    {bound : Nat} (hwhole : y.isWhole = true) (hlt : y.units < bound) :
    x.isWhole = true ∧ x.units < bound := by
  have hunits : y.units = x.units := by
    rw [← natAbs_signedUnits y, h, natAbs_signedUnits x]
  rw [isWhole, hunits] at hwhole
  exact ⟨hwhole, hunits ▸ hlt⟩

end Finite

/-- A number of a record and a finite double always have an order, that of the numbers that they
denote. Neither the choice between the two ways of comparing nor the rounding of integers of the
record shows: a double that is not compared as an integer is not the one that an integer is rounded
to. -/
theorem Json.Number.order?_exact (n : Json.Number) (x : Finite) :
    n.order? (.finite x) = some (compare n.value x.value) := by
  cases n with
  | float y => exact congrArg some (y.order_eq_compare x)
  | whole i =>
    by_cases hexact : x.isWhole = true ∧ x.units < 2 ^ 127 * unitsPerOne
    · rw [order?_whole i hexact.1 hexact.2, Finite.compare_whole hexact.1, value]
    · have hi : i.value.natAbs ≤ 2 ^ 64 := by
        have := i.lower
        have := i.upper
        omega
      obtain ⟨y, hy, hnearest, hwhole, hlt⟩ := Double.ofInt_whole hi
      have hne : y.signedUnits ≠ x.signedUnits := fun heq =>
        hexact (Finite.isWhole_and_lt_of_signedUnits_eq heq hwhole hlt)
      rw [order?_rounded i hexact, hy, Double.order?, Finite.order, hnearest.compare_eq hne, value,
        Finite.compare_intCast_value]

end PostfixRules
