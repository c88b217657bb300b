import PostfixRules.Proofs.Number.Comparison

/-!
# Rounded quotients as numbers

A quotient of natural numbers is rounded to a double that denotes a number nearest to the quotient,
and where another double is equally near the last bit of the chosen one is zero.
-/

namespace PostfixRules

/-- Among all finite doubles this one denotes a number nearest to a rational number, and where
another number is equally near its last bit is zero. -/
structure Finite.IsNearestTo (x : Finite) (q : ℚ) : Prop where
  nearest : ∀ y : Finite, |x.value - q| ≤ |y.value - q|
  even : ∀ y : Finite, y.value ≠ x.value → |y.value - q| = |x.value - q| → x.mantissa % 2 = 0

namespace Finite

theorem abs_value_sub (x : Finite) (num : Nat) {den : Nat} (hden : 0 < den) :
    |x.value - (num : ℚ) / (den : ℚ)| =
      (x.distance num den : ℚ) / ((unitsPerOne : ℚ) * (den : ℚ)) := by
  have hunits : (0 : ℚ) < (unitsPerOne : ℚ) := Nat.cast_pos.mpr unitsPerOne_pos
  have hden' : (0 : ℚ) < (den : ℚ) := Nat.cast_pos.mpr hden
  have hdiff : x.value - (num : ℚ) / (den : ℚ) =
      ((x.signedUnits * (den : ℤ) - (num : ℤ) * (unitsPerOne : ℤ) : ℤ) : ℚ) /
        ((unitsPerOne : ℚ) * (den : ℚ)) := by
    rw [value, div_sub_div _ _ hunits.ne' hden'.ne']
    push_cast
    ring
  rw [hdiff, abs_div, abs_of_pos (mul_pos hunits hden'), distance, Nat.cast_natAbs, Int.cast_abs]

/-- The distances from a quotient compare as their numerators do. -/
theorem abs_value_sub_le_iff {x y : Finite} {num den : Nat} (hden : 0 < den) :
    |x.value - (num : ℚ) / (den : ℚ)| ≤ |y.value - (num : ℚ) / (den : ℚ)| ↔
      x.distance num den ≤ y.distance num den := by
  have hpos : (0 : ℚ) < (unitsPerOne : ℚ) * (den : ℚ) :=
    mul_pos (Nat.cast_pos.mpr unitsPerOne_pos) (Nat.cast_pos.mpr hden)
  rw [abs_value_sub x num hden, abs_value_sub y num hden, div_le_div_iff_of_pos_right hpos,
    Nat.cast_le]

/-- Doubles of different values have different units. -/
theorem signedUnits_ne {x y : Finite} (h : y.value ≠ x.value) : y.signedUnits ≠ x.signedUnits := by
  intro heq
  exact h (by rw [value, value, heq])

/-- The double on the grid of a quotient is nearest to the quotient. -/
theorem isNearestTo_of_grid {x : Finite} {num den : Nat} (hden : 0 < den)
    (hnegative : x.negative = false)
    (hunits : x.units = Double.gridSteps num den * 2 ^ Double.gridShift num den)
    (hparity : x.mantissa % 2 = Double.gridSteps num den % 2) :
    x.IsNearestTo ((num : ℚ) / (den : ℚ)) := by
  have hsign : x.negative = decide ((num : ℤ) < 0) := by
    rw [hnegative, decide_eq_false (Int.not_lt.mpr (Int.natCast_nonneg num))]
  rw [← Int.natAbs_natCast num] at hunits hparity
  constructor
  · intro y
    rw [abs_value_sub_le_iff hden]
    exact distance_le_of_grid hden hsign hunits y
  · intro y hne heq
    have hdistance : y.distance num den = x.distance num den :=
      Nat.le_antisymm ((abs_value_sub_le_iff hden).mp heq.le)
        ((abs_value_sub_le_iff hden).mp heq.ge)
    exact even_of_grid hden hsign hunits hparity (signedUnits_ne hne) hdistance

end Finite

namespace Double

/-- A quotient that is not too large is rounded to a finite double nearest to it. -/
theorem ofRatio_isNearestTo {num den : Nat} (hden : 0 < den) (h : num ≤ den * 2 ^ 100) :
    ∃ x : Finite, ofRatio false num den = .finite x ∧
      x.IsNearestTo ((num : ℚ) / (den : ℚ)) := by
  have hshift : gridShift num den ≤ 2044 := (gridShift_le_of_le h).trans (by decide)
  obtain ⟨x, hx, hnegative, hunits, hparity⟩ := ofRatio_finite false hshift
  exact ⟨x, hx, Finite.isNearestTo_of_grid hden hnegative hunits hparity⟩

end Double

end PostfixRules
