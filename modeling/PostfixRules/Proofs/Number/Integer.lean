import PostfixRules.Proofs.Number.Layout

/-!
# The double nearest to an integer

The decimal text of an integer is read as the double nearest to it. For integers of 64 bits that
double is finite and whole, and it is the integer itself whenever the integer is the value of any
double, as all integers of magnitude up to `2 ^ 53` are. How near a double is to an integer is
measured as for quotients of either sign, among which the integers are those by one.
-/

namespace PostfixRules

/-- Among all finite doubles this one has a value nearest to an integer, and where another value is
equally near its last bit is zero. -/
structure Finite.IsNearest (x : Finite) (i : Int) : Prop where
  nearest : ∀ y : Finite, (x.signedUnits - i * (unitsPerOne : Int)).natAbs ≤
    (y.signedUnits - i * (unitsPerOne : Int)).natAbs
  even : ∀ y : Finite, y.signedUnits ≠ x.signedUnits →
    (y.signedUnits - i * (unitsPerOne : Int)).natAbs =
      (x.signedUnits - i * (unitsPerOne : Int)).natAbs → x.mantissa % 2 = 0

/-! ## Reading -/

/-- A decimal integer splits into its sign and its digits. -/
theorem Text.splitSign_signedDecimal (i : Int) :
    Decimal.splitSign (Text.signedDecimal i) = (decide (i < 0), Text.decimal i.natAbs) := by
  obtain ⟨first, others, hdigits, hfirst, -⟩ := exists_decimal_cons i.natAbs
  unfold signedDecimal
  rw [hdigits]
  by_cases hi : i < 0
  · rw [if_pos hi, decide_eq_true hi]
    rfl
  · rw [if_neg hi, decide_eq_false hi]
    exact Decimal.splitSign_of_isDigit hfirst others

/-- A decimal integer is read as the double nearest to it. -/
theorem Double.read?_signedDecimal (i : Int) :
    Double.read? (Text.signedDecimal i) = some (.ofInt i) := by
  have hsign := Text.splitSign_signedDecimal i
  have hread : Decimal.read? (Text.signedDecimal i) = some ⟨decide (i < 0), i.natAbs, 0⟩ := by
    have hwhole := Decimal.ofUnsigned?_whole (decide (i < 0)) (Text.decimal_ne_nil i.natAbs)
      (Text.isDigit_of_mem_decimal _) .none
    rw [List.append_nil, Text.natOfDigits_decimal] at hwhole
    rw [Decimal.read?, hsign]
    exact hwhole
  obtain ⟨first, others, hdigits, hfirst, -⟩ := Text.exists_decimal_cons i.natAbs
  rw [hdigits] at hsign
  rw [read?_of_isDigit hsign hfirst, hread, Option.map_some, Decimal.toDouble_eq, Decimal.num,
    Decimal.den, ofInt]
  simp

/-! ## Rounding -/

namespace Double

/-- The grid of an integer of 64 bits lies well among the finite doubles. -/
theorem gridShift_le {n : Nat} (hn : n ≤ 2 ^ 64) : gridShift n 1 ≤ 1086 :=
  @gridShift_le_of_le n 1 64 (by rwa [Nat.one_mul])

/-- Where a double is as near as the rounded steps of the grid, their number is even. Such a double
lies on the grid, for to one that does not the first quotient with this grid is nearer. -/
theorem gridSteps_even_of_nearest {num den : Nat} (hd : 0 < den) {y : Finite}
    (hne : y.units ≠ gridSteps num den * 2 ^ gridShift num den)
    (h : ((y.units * den : Nat) - ((num * unitsPerOne : Nat) : Int)).natAbs =
      ((gridSteps num den * (den * 2 ^ gridShift num den) : Nat) -
        ((num * unitsPerOne : Nat) : Int)).natAbs) :
    gridSteps num den % 2 = 0 := by
  have hstep : 0 < den * 2 ^ gridShift num den := Nat.mul_pos hd (Nat.two_pow_pos _)
  by_cases hy : gridShift num den ≤ y.shift
  · have hm := units_eq_mul_step hy
    have hmd : y.units * den =
        y.mantissa * 2 ^ (y.shift - gridShift num den) * (den * 2 ^ gridShift num den) := by
      rw [hm]
      ring
    rw [hmd] at h
    refine roundDiv_even_of_nearest hstep (fun he => hne ?_) h
    rw [hm, he, gridSteps]
  · obtain ⟨hbelow, hfirst⟩ := units_lt_of_shift_lt hd (Nat.lt_of_not_le hy)
    exfalso
    have hnear := roundDiv_nearest .even (num * unitsPerOne) (2 ^ 52) hstep
    unfold gridSteps at h
    omega

/-- A number that the grid holds is not rounded. -/
theorem gridSteps_of_dvd {num den : Nat} (hd : 0 < den)
    (h : den * 2 ^ gridShift num den ∣ num * unitsPerOne) :
    gridSteps num den * (den * 2 ^ gridShift num den) = num * unitsPerOne := by
  obtain ⟨k, hk⟩ := h
  have hstep : 0 < den * 2 ^ gridShift num den := Nat.mul_pos hd (Nat.two_pow_pos _)
  have hsteps : gridSteps num den = k := by
    rw [gridSteps, hk, Nat.mul_comm]
    exact roundDiv_mul_self .even k hstep
  rw [hsteps, hk, Nat.mul_comm]

/-- The steps of the grid of a natural number make whole ones. -/
theorem unitsPerOne_dvd_gridSteps (n : Nat) :
    unitsPerOne ∣ gridSteps n 1 * 2 ^ gridShift n 1 := by
  obtain ⟨u, hu⟩ : ∃ u, u = 1074 := ⟨1074, rfl⟩
  by_cases hshift : u ≤ gridShift n 1
  · rw [unitsPerOne_eq hu]
    exact Nat.dvd_mul_left_of_dvd (Nat.pow_dvd_pow 2 hshift) _
  · have hdvd : 1 * 2 ^ gridShift n 1 ∣ n * unitsPerOne := by
      rw [Nat.one_mul, unitsPerOne_eq hu]
      exact Nat.dvd_mul_left_of_dvd (Nat.pow_dvd_pow 2 (by omega)) _
    have hexact := gridSteps_of_dvd Nat.one_pos hdvd
    rw [Nat.one_mul] at hexact
    rw [hexact]
    exact Nat.dvd_mul_left _ _

/-- Natural numbers of 53 binary digits, and the next one, are on their grid. -/
theorem gridSteps_of_le {n : Nat} (hn : n ≤ 2 ^ 53) :
    gridSteps n 1 * 2 ^ gridShift n 1 = n * unitsPerOne := by
  obtain ⟨u, hu⟩ : ∃ u, u = 1074 := ⟨1074, rfl⟩
  have hdvd : 1 * 2 ^ gridShift n 1 ∣ n * unitsPerOne := by
    rw [Nat.one_mul]
    by_cases hshift : gridShift n 1 ≤ u
    · rw [unitsPerOne_eq hu]
      exact Nat.dvd_mul_left_of_dvd (Nat.pow_dvd_pow 2 hshift) _
    · have hle : n * unitsPerOne ≤ 2 ^ (53 + u) := by
        rw [Nat.pow_add, unitsPerOne_eq hu]
        exact Nat.mul_le_mul_right _ hn
      have hlog : 53 + u ≤ (n * unitsPerOne).log2 := by
        rw [gridShift, Nat.div_one] at hshift
        omega
      have hz : n * unitsPerOne ≠ 0 := by
        intro hz
        rw [hz, Nat.log2_zero] at hlog
        omega
      have heq : n * unitsPerOne = 2 ^ (53 + u) :=
        Nat.le_antisymm hle ((Nat.le_log2 hz).mp hlog)
      have hexact : gridShift n 1 ≤ 53 + u := by
        rw [gridShift, Nat.div_one, heq, Nat.log2_two_pow]
        exact Nat.sub_le _ _
      rw [heq]
      exact Nat.pow_dvd_pow 2 hexact
  have hexact := gridSteps_of_dvd Nat.one_pos hdvd
  rwa [Nat.one_mul] at hexact

/-- The double of an integer of 64 bits is finite and on the grid of its magnitude. -/
theorem ofInt_finite {i : Int} (hi : i.natAbs ≤ 2 ^ 64) :
    ∃ x : Finite, ofInt i = .finite x ∧ x.negative = decide (i < 0) ∧
      x.units = gridSteps i.natAbs 1 * 2 ^ gridShift i.natAbs 1 ∧
      x.mantissa % 2 = gridSteps i.natAbs 1 % 2 :=
  ofRatio_finite _ ((gridShift_le hi).trans (by decide))

end Double

/-! ## Nearness -/

private theorem mul_unitsPerOne (i : Int) :
    i * (unitsPerOne : Int) = if i < 0 then -((i.natAbs * unitsPerOne : Nat) : Int)
      else ((i.natAbs * unitsPerOne : Nat) : Int) := by
  rw [Int.natCast_mul]
  split_ifs with hi
  · rw [show (i.natAbs : Int) = -i by omega, Int.neg_mul, Int.neg_neg]
  · rw [show (i.natAbs : Int) = i by omega]

namespace Finite

/-- How far a double is from a quotient of either sign, in units divided by the denominator. -/
def distance (x : Finite) (num : Int) (den : Nat) : Nat :=
  (x.signedUnits * (den : Int) - num * (unitsPerOne : Int)).natAbs

theorem signedUnits_mul (x : Finite) (den : Nat) :
    x.signedUnits * (den : Int) = if x.negative then -((x.units * den : Nat) : Int)
      else ((x.units * den : Nat) : Int) := by
  rw [signedUnits, Int.natCast_mul]
  split_ifs
  · exact Int.neg_mul _ _
  · rfl

/-- The distance from a quotient of the same sign is that of the magnitudes. -/
theorem distance_eq {x : Finite} {num : Int} (h : x.negative = decide (num < 0)) (den : Nat) :
    x.distance num den =
      (((x.units * den : Nat) : Int) - ((num.natAbs * unitsPerOne : Nat) : Int)).natAbs := by
  rw [distance, mul_unitsPerOne, signedUnits_mul, h]
  by_cases hi : num < 0
  · simp only [hi, decide_true, if_true]
    omega
  · simp only [hi, decide_false, Bool.false_eq_true, if_false]

/-- The distance from a quotient is not less than that of the magnitudes. -/
theorem le_distance (y : Finite) (num : Int) (den : Nat) :
    (((y.units * den : Nat) : Int) - ((num.natAbs * unitsPerOne : Nat) : Int)).natAbs ≤
      y.distance num den := by
  rw [distance, mul_unitsPerOne, signedUnits_mul]
  split_ifs <;> omega

/-- The steps of a grid, widened by the denominator. -/
theorem gridSteps_mul {x : Finite} {num den : Nat}
    (hunits : x.units = Double.gridSteps num den * 2 ^ Double.gridShift num den) :
    Double.gridSteps num den * (den * 2 ^ Double.gridShift num den) = x.units * den := by
  rw [hunits]
  ring

section Grid

variable {x : Finite} {num : Int} {den : Nat} (hden : 0 < den)
  (hnegative : x.negative = decide (num < 0))
  (hunits : x.units = Double.gridSteps num.natAbs den * 2 ^ Double.gridShift num.natAbs den)

include hden hnegative hunits

/-- No magnitude is nearer to that of a quotient than the double on its grid is to the quotient. -/
theorem distance_le_magnitude (y : Finite) : x.distance num den ≤
    (((y.units * den : Nat) : Int) - ((num.natAbs * unitsPerOne : Nat) : Int)).natAbs := by
  have hnearest := @Double.gridSteps_nearest num.natAbs den hden y
  rwa [gridSteps_mul hunits, ← distance_eq hnegative] at hnearest

/-- The double on the grid of a quotient is nearest to the quotient. -/
theorem distance_le_of_grid (y : Finite) : x.distance num den ≤ y.distance num den :=
  (distance_le_magnitude hden hnegative hunits y).trans (y.le_distance num den)

/-- Equal magnitudes of unlike signs are equally near to zero only, where both are zero. -/
theorem signedUnits_eq_of_distance_eq {y : Finite} (hsame : y.units = x.units)
    (heq : y.distance num den = x.distance num den) : y.signedUnits = x.signedUnits := by
  have hzero := distance_le_magnitude hden hnegative hunits (zero false)
  have hpositive : x.units ≠ 0 → 0 < x.units * den :=
    fun hne => Nat.mul_pos (Nat.pos_of_ne_zero hne) hden
  rw [show (zero false).units = 0 from rfl, Nat.zero_mul, distance_eq hnegative] at hzero
  rw [distance, distance, mul_unitsPerOne, signedUnits_mul, signedUnits_mul, hsame,
    hnegative] at heq
  rw [signedUnits, signedUnits, hsame, hnegative]
  generalize num.natAbs * unitsPerOne = magnitude at heq hzero
  generalize x.units * den = product at heq hzero hpositive
  simp only [decide_eq_true_eq] at heq ⊢
  split_ifs at heq ⊢ <;> omega

/-- Where another value is equally near, the last bit of the double on the grid is zero. -/
theorem even_of_grid (hparity : x.mantissa % 2 = Double.gridSteps num.natAbs den % 2) {y : Finite}
    (hne : y.signedUnits ≠ x.signedUnits) (heq : y.distance num den = x.distance num den) :
    x.mantissa % 2 = 0 := by
  have hunlike : y.units ≠
      Double.gridSteps num.natAbs den * 2 ^ Double.gridShift num.natAbs den := by
    rw [← hunits]
    exact fun hsame => hne (signedUnits_eq_of_distance_eq hden hnegative hunits hsame heq)
  have hmagnitude : (((y.units * den : Nat) : Int) -
      ((num.natAbs * unitsPerOne : Nat) : Int)).natAbs = x.distance num den :=
    Nat.le_antisymm (heq ▸ y.le_distance num den) (distance_le_magnitude hden hnegative hunits y)
  rw [hparity]
  apply Double.gridSteps_even_of_nearest hden hunlike
  rw [gridSteps_mul hunits, ← distance_eq hnegative]
  exact hmagnitude

end Grid

/-! ## Values -/

/-- The distance from an integer is that from a quotient by one. -/
theorem distance_one (x : Finite) (i : Int) :
    x.distance i 1 = (x.signedUnits - i * (unitsPerOne : Int)).natAbs := by
  rw [distance, Int.natCast_one, Int.mul_one]

/-- The double on the grid of an integer's magnitude is nearest to the integer. -/
theorem isNearest_of_grid {x : Finite} {i : Int} (hnegative : x.negative = decide (i < 0))
    (hunits : x.units = Double.gridSteps i.natAbs 1 * 2 ^ Double.gridShift i.natAbs 1)
    (hparity : x.mantissa % 2 = Double.gridSteps i.natAbs 1 % 2) : x.IsNearest i where
  nearest := by
    intro y
    rw [← distance_one, ← distance_one]
    exact distance_le_of_grid Nat.one_pos hnegative hunits y
  even := by
    intro y hne heq
    rw [← distance_one, ← distance_one] at heq
    exact even_of_grid Nat.one_pos hnegative hunits hparity hne heq

/-- The nearest double to the value of a double has that value. -/
theorem IsNearest.signedUnits_eq {x y : Finite} {i : Int} (h : x.IsNearest i)
    (hy : y.signedUnits = i * (unitsPerOne : Int)) : x.signedUnits = i * (unitsPerOne : Int) := by
  have hle := h.nearest y
  rw [hy] at hle
  omega

/-- A whole number of units is the whole part. -/
theorem signedUnits_of_isWhole {x : Finite} (h : x.isWhole = true) :
    x.signedUnits = x.whole * (unitsPerOne : Int) := by
  have hmod : x.units % unitsPerOne = 0 := by simpa [isWhole] using h
  have hunits : (x.units : Int) = ((x.units / unitsPerOne : Nat) : Int) * (unitsPerOne : Int) := by
    rw [← Int.natCast_mul, Nat.div_mul_cancel (Nat.dvd_of_mod_eq_zero hmod)]
  unfold signedUnits whole
  split_ifs
  · rw [Int.neg_mul, ← hunits]
  · exact hunits

end Finite

/-- The double nearest to an integer of 64 bits is a whole number well below `2 ^ 127`. -/
theorem Double.ofInt_whole {i : Int} (hi : i.natAbs ≤ 2 ^ 64) :
    ∃ x : Finite, ofInt i = .finite x ∧ x.IsNearest i ∧ x.isWhole = true ∧
      x.units < 2 ^ 127 * unitsPerOne := by
  obtain ⟨x, hx, hnegative, hunits, hparity⟩ := ofInt_finite hi
  refine ⟨x, hx, Finite.isNearest_of_grid hnegative hunits hparity, ?_, ?_⟩
  · have hmod : x.units % unitsPerOne = 0 :=
      Nat.mod_eq_zero_of_dvd (hunits ▸ unitsPerOne_dvd_gridSteps i.natAbs)
    rw [Finite.isWhole, hmod]
    rfl
  · obtain ⟨u, hu⟩ : ∃ u, u = 1074 := ⟨1074, rfl⟩
    have hshift := gridShift_le hi
    calc x.units ≤ 2 ^ 53 * 2 ^ gridShift i.natAbs 1 := by
          rw [hunits]
          exact Nat.mul_le_mul_right _ (gridSteps_le _ _)
      _ = 2 ^ (53 + gridShift i.natAbs 1) := (Nat.pow_add 2 53 _).symm
      _ < 2 ^ (127 + u) := Nat.pow_lt_pow_right (by decide) (by omega)
      _ = 2 ^ 127 * unitsPerOne := by rw [Nat.pow_add, unitsPerOne_eq hu]

/-- Every integer of magnitude up to `2 ^ 53` is the value of a double. -/
theorem Finite.exists_signedUnits_eq {i : Int} (hi : i.natAbs ≤ 2 ^ 53) :
    ∃ y : Finite, y.signedUnits = i * (unitsPerOne : Int) := by
  obtain ⟨y, -, hnegative, hunits, -⟩ :=
    Double.ofInt_finite (hi.trans (Nat.pow_le_pow_right (by decide) (by decide)))
  refine ⟨y, ?_⟩
  rw [Double.gridSteps_of_le hi] at hunits
  rw [signedUnits, hnegative, hunits, mul_unitsPerOne]
  simp only [decide_eq_true_eq]

end PostfixRules
