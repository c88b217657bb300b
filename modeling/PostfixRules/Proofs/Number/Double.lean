import PostfixRules.Number.Double
import PostfixRules.Proofs.Number.Rounding

/-!
# The double nearest to a quotient

A quotient is rounded on a grid: its step is the power of two at which the quotient has 53 binary
digits, or one unit below the lowest binade. Every double is a multiple of the step or lies below
all quotients of the grid, so the rounded quotient is nearest among all doubles, and a quotient that
is itself the value of a double is rounded to that double.
-/

namespace PostfixRules

namespace Finite

/-- Fewer units than the next binade begins with. -/
theorem units_lt (x : Finite) : x.units < 2 ^ (53 + x.shift) := by
  rw [units, Nat.pow_add]
  exact Nat.mul_lt_mul_of_pos_right x.mantissa_lt (Nat.two_pow_pos x.shift)

/-- Above the lowest binade the shift is read off the number of binary digits. -/
theorem log2_units_sub (x : Finite) : x.units.log2 - 52 = x.shift := by
  by_cases hz : x.units = 0
  · have hm : x.mantissa = 0 := (Nat.mul_eq_zero.mp hz).resolve_right (Nat.two_pow_pos _).ne'
    have hs := x.normal.resolve_right (by omega)
    rw [hz, hs]
    rfl
  · have hlt : x.units.log2 < 53 + x.shift := (Nat.log2_lt hz).mpr x.units_lt
    rcases x.normal with hs | hn
    · omega
    · have hle : 52 + x.shift ≤ x.units.log2 := by
        rw [Nat.le_log2 hz, units, Nat.pow_add]
        exact Nat.mul_le_mul_right _ hn
      omega

theorem ofParts?_eq_some {negative : Bool} {mantissa shift : Nat} (hm : mantissa < 2 ^ 53)
    (hs : shift ≤ 2045) (hn : shift = 0 ∨ 2 ^ 52 ≤ mantissa) :
    ofParts? negative mantissa shift = some ⟨negative, mantissa, shift, hm, hs, hn⟩ :=
  dif_pos ⟨hm, hs, hn⟩

theorem ofParts?_eq_none {negative : Bool} {mantissa shift : Nat} (hs : 2045 < shift) :
    ofParts? negative mantissa shift = none :=
  dif_neg fun h => Nat.not_le.mpr hs h.2.1

end Finite

namespace Double

/-! ## The grid -/

/-- The power of two that is the step of the grid for a quotient. -/
def gridShift (num den : Nat) : Nat :=
  (num * unitsPerOne / den).log2 - 52

/-- The quotient as a rounded number of steps. -/
def gridSteps (num den : Nat) : Nat :=
  roundDiv .even (num * unitsPerOne) (den * 2 ^ gridShift num den)

theorem ofRatio_eq (negative : Bool) (num den : Nat) :
    ofRatio negative num den =
      if gridSteps num den = 2 ^ 53 then ofParts negative (2 ^ 52) (gridShift num den + 1)
      else ofParts negative (gridSteps num den) (gridShift num den) := rfl

/-- The whole steps of a quotient have at most 53 binary digits. -/
theorem steps_lt (num den : Nat) :
    num * unitsPerOne / (den * 2 ^ gridShift num den) < 2 ^ 53 := by
  rw [← Nat.div_div_eq_div_mul, Nat.div_lt_iff_lt_mul (Nat.two_pow_pos _), ← Nat.pow_add]
  apply Nat.lt_of_lt_of_le Nat.lt_log2_self
  apply Nat.pow_le_pow_right (by decide)
  unfold gridShift
  omega

/-- Above the lowest binade they have exactly 53. -/
theorem le_steps {num den : Nat} (hs : 0 < gridShift num den) :
    2 ^ 52 ≤ num * unitsPerOne / (den * 2 ^ gridShift num den) := by
  have hlog : 52 + gridShift num den = (num * unitsPerOne / den).log2 := by
    unfold gridShift at hs ⊢
    omega
  have hq : num * unitsPerOne / den ≠ 0 := by
    intro hz
    rw [hz, Nat.log2_zero] at hlog
    omega
  rw [← Nat.div_div_eq_div_mul, Nat.le_div_iff_mul_le (Nat.two_pow_pos _), ← Nat.pow_add, hlog]
  exact Nat.log2_self_le hq

theorem gridSteps_le (num den : Nat) : gridSteps num den ≤ 2 ^ 53 := by
  have hlt := steps_lt num den
  unfold gridSteps
  rcases roundDiv_cases .even (num * unitsPerOne) (den * 2 ^ gridShift num den) with
    ⟨h, -⟩ | ⟨h, -⟩ <;> omega

theorem le_gridSteps {num den : Nat} (hs : 0 < gridShift num den) :
    2 ^ 52 ≤ gridSteps num den := by
  have hle := le_steps hs
  unfold gridSteps
  rcases roundDiv_cases .even (num * unitsPerOne) (den * 2 ^ gridShift num den) with
    ⟨h, -⟩ | ⟨h, -⟩ <;> omega

/-- A quotient whose grid is not beyond the doubles is rounded to a finite double. -/
theorem ofRatio_finite (negative : Bool) {num den : Nat} (hs : gridShift num den ≤ 2044) :
    ∃ x : Finite, ofRatio negative num den = .finite x ∧ x.negative = negative ∧
      x.units = gridSteps num den * 2 ^ gridShift num den ∧
      x.mantissa % 2 = gridSteps num den % 2 := by
  rw [ofRatio_eq]
  split_ifs with hcarry
  · refine ⟨⟨negative, 2 ^ 52, gridShift num den + 1, by decide, by omega, .inr (by decide)⟩,
      ?_, rfl, ?_, ?_⟩
    · rw [ofParts, Finite.ofParts?_eq_some]
    · change 2 ^ 52 * 2 ^ (gridShift num den + 1) = _
      rw [hcarry, Nat.pow_succ]
      omega
    · change 2 ^ 52 % 2 = _
      rw [hcarry]
      rfl
  · have hlt : gridSteps num den < 2 ^ 53 := Nat.lt_of_le_of_ne (gridSteps_le num den) hcarry
    have hn : gridShift num den = 0 ∨ 2 ^ 52 ≤ gridSteps num den :=
      (Nat.eq_zero_or_pos _).imp_right le_gridSteps
    refine ⟨⟨negative, gridSteps num den, gridShift num den, hlt, by omega, hn⟩, ?_, rfl, rfl, rfl⟩
    rw [ofParts, Finite.ofParts?_eq_some hlt (by omega) hn]

/-! ## Exact and extreme quotients -/

/-- A common factor of both numbers does not matter. -/
theorem ofRatio_mul_right (negative : Bool) (num den : Nat) {c : Nat} (hc : 0 < c) :
    ofRatio negative (num * c) (den * c) = ofRatio negative num den := by
  have hnum : num * c * unitsPerOne = num * unitsPerOne * c := by ring
  have hden : den * c * 2 ^ gridShift num den = den * 2 ^ gridShift num den * c := by ring
  have hshift : gridShift (num * c) (den * c) = gridShift num den := by
    rw [gridShift, hnum, Nat.mul_div_mul_right _ _ hc, gridShift]
  have hsteps : gridSteps (num * c) (den * c) = gridSteps num den := by
    rw [gridSteps, hshift, hnum, hden, roundDiv_mul_right _ _ _ hc, gridSteps]
  rw [ofRatio_eq, ofRatio_eq, hshift, hsteps]

/-- The value of a double is rounded to the double. -/
theorem ofRatio_units (x : Finite) : ofRatio x.negative x.units unitsPerOne = .finite x := by
  have hshift : gridShift x.units unitsPerOne = x.shift := by
    rw [gridShift, Nat.mul_div_cancel _ unitsPerOne_pos, x.log2_units_sub]
  have hsteps : gridSteps x.units unitsPerOne = x.mantissa := by
    rw [gridSteps, hshift, Finite.units, Nat.mul_assoc, Nat.mul_comm (2 ^ x.shift)]
    exact roundDiv_mul_self _ _ (Nat.mul_pos unitsPerOne_pos (Nat.two_pow_pos _))
  rw [ofRatio_eq, hsteps, hshift, if_neg x.mantissa_lt.ne, ofParts,
    Finite.ofParts?_eq_some x.mantissa_lt x.shift_le x.normal]

/-- The grid of a quotient is bounded with the quotient. -/
theorem gridShift_le_of_le {num den k : Nat} (h : num ≤ den * 2 ^ k) :
    gridShift num den ≤ k + 1022 := by
  obtain ⟨u, hu⟩ : ∃ u, u = 1074 := ⟨1074, rfl⟩
  have hle : num * unitsPerOne / den ≤ 2 ^ (k + u) := by
    rw [Nat.pow_add, unitsPerOne_eq hu]
    refine Nat.div_le_of_le_mul ?_
    rw [← Nat.mul_assoc]
    exact Nat.mul_le_mul_right _ h
  rw [gridShift]
  by_cases hz : num * unitsPerOne / den = 0
  · rw [hz, Nat.log2_zero]
    omega
  · have hlt : (num * unitsPerOne / den).log2 < k + u + 1 :=
      (Nat.log2_lt hz).mpr (Nat.lt_of_le_of_lt hle (Nat.pow_lt_pow_right (by decide) (by omega)))
    omega

/-- A quotient whose grid is beyond the doubles is infinite. -/
theorem ofRatio_infinity (negative : Bool) {num den : Nat} (hs : 2045 < gridShift num den) :
    ofRatio negative num den = .infinity negative := by
  rw [ofRatio_eq]
  split_ifs <;> rw [ofParts, Finite.ofParts?_eq_none (by omega)]

/-- A quotient of less than half a unit is zero. -/
theorem ofRatio_zero (negative : Bool) {num den : Nat} (h : 2 * (num * unitsPerOne) < den) :
    ofRatio negative num den = .finite (Finite.zero negative) := by
  have hshift : gridShift num den = 0 := by
    rw [gridShift, Nat.div_eq_of_lt (by omega), Nat.log2_zero]
  have hsteps : gridSteps num den = 0 := by
    rw [gridSteps, hshift, Nat.pow_zero, Nat.mul_one, roundDiv_eq_zero h]
  rw [ofRatio_eq, hshift, hsteps]
  rfl

/-! ## Nearest -/

/-- A double with a step at least as long as that of a grid lies on the grid. -/
theorem units_eq_mul_step {y : Finite} {shift : Nat} (h : shift ≤ y.shift) :
    y.units = y.mantissa * 2 ^ (y.shift - shift) * 2 ^ shift := by
  rw [Finite.units, Nat.mul_assoc, ← Nat.pow_add, Nat.sub_add_cancel h]

/-- A double with a shorter step than that of the grid of a quotient lies below the first quotient
with this grid. -/
theorem units_lt_of_shift_lt {num den : Nat} (hd : 0 < den) {y : Finite}
    (h : y.shift < gridShift num den) :
    y.units * den < 2 ^ 52 * (den * 2 ^ gridShift num den) ∧
      2 ^ 52 * (den * 2 ^ gridShift num den) ≤ num * unitsPerOne := by
  have hstep : 0 < den * 2 ^ gridShift num den := Nat.mul_pos hd (Nat.two_pow_pos _)
  refine ⟨?_, (Nat.le_div_iff_mul_le hstep).mp (le_steps (by omega))⟩
  calc y.units * den < 2 ^ (53 + y.shift) * den := Nat.mul_lt_mul_of_pos_right y.units_lt hd
    _ ≤ 2 ^ (52 + gridShift num den) * den :=
      Nat.mul_le_mul_right _ (Nat.pow_le_pow_right (by decide) (by omega))
    _ = 2 ^ 52 * (den * 2 ^ gridShift num den) := by rw [Nat.pow_add]; ring

/-- No double has a value nearer to the quotient than the rounded steps of the grid. -/
theorem gridSteps_nearest {num den : Nat} (hd : 0 < den) (y : Finite) :
    ((gridSteps num den * (den * 2 ^ gridShift num den) : Nat) -
        ((num * unitsPerOne : Nat) : Int)).natAbs ≤
      ((y.units * den : Nat) - ((num * unitsPerOne : Nat) : Int)).natAbs := by
  have hstep : 0 < den * 2 ^ gridShift num den := Nat.mul_pos hd (Nat.two_pow_pos _)
  by_cases hy : gridShift num den ≤ y.shift
  · have hm : y.units * den =
        y.mantissa * 2 ^ (y.shift - gridShift num den) * (den * 2 ^ gridShift num den) := by
      rw [units_eq_mul_step hy]
      ring
    rw [hm]
    exact roundDiv_nearest _ _ _ hstep
  · obtain ⟨hbelow, hfirst⟩ := units_lt_of_shift_lt hd (Nat.lt_of_not_le hy)
    have hnear := roundDiv_nearest .even (num * unitsPerOne) (2 ^ 52) hstep
    unfold gridSteps
    omega

end Double

end PostfixRules
