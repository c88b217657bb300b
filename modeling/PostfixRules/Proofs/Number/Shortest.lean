import PostfixRules.Number.Shortest
import PostfixRules.Proofs.Number.Decimal

/-!
# Shortest decimals read back

The decimal that stands for a finite double names that double, whichever tie is chosen: candidates
are accepted only after they have been read back, and the exact expansion, which stands in when
there is none, is a quotient equal to the value.
-/

namespace PostfixRules.Finite

/-- The exact expansion of a double names it. -/
theorem toDouble_exactDecimal (x : Finite) : x.exactDecimal.toDouble = .finite x := by
  obtain ⟨u, hu⟩ : ∃ u, u = 1074 := ⟨1074, rfl⟩
  have hvalue : x.units * 5 ^ u * 10 ^ (-(u : Int)).toNat * unitsPerOne =
      x.units * 10 ^ (- -(u : Int)).toNat := by
    have hzero : (-(u : Int)).toNat = 0 := by omega
    rw [hzero, Int.neg_neg, Int.toNat_natCast, Nat.pow_zero, Nat.mul_one, unitsPerOne_eq hu,
      Nat.mul_assoc, ← Nat.mul_pow]
  rw [exactDecimal_eq x hu, Decimal.toDouble_eq, ← Double.ofRatio_units x]
  exact Double.ofRatio_congr _ (Decimal.den_pos _) unitsPerOne_pos hvalue

/-- A neighbour on a grid is only taken if it names the number. -/
theorem namedBy_of_neighbour? {tie : Tie} {x : Finite} {grid : Int} {steps : Nat}
    (h : x.neighbour? tie grid = some steps) : x.namedBy steps grid = true := by
  simp only [neighbour?] at h
  split_ifs at h with hnear hfar
  · cases h
    exact hnear
  all_goals
    cases h
    assumption

theorem toDouble_of_namedBy {x : Finite} {steps : Nat} {grid : Int}
    (h : x.namedBy steps grid = true) :
    Decimal.toDouble ⟨x.negative, steps, grid⟩ = .finite x :=
  beq_iff_eq.mp h

theorem eq_zero_of_mantissa {x : Finite} (h : x.mantissa = 0) : x = zero x.negative := by
  obtain ⟨negative, mantissa, shift, hm, hs, hn⟩ := x
  obtain rfl : mantissa = 0 := h
  obtain rfl : shift = 0 := hn.resolve_right (by decide)
  rfl

/-- The decimal that is written for a double has the sign of the double and names it. -/
theorem shortest_spec (tie : Tie) (x : Finite) :
    (x.shortest tie).negative = x.negative ∧ (x.shortest tie).toDouble = .finite x := by
  unfold shortest
  split_ifs with hm
  · refine ⟨rfl, ?_⟩
    rw [Decimal.toDouble_zero, ← eq_zero_of_mantissa hm]
  · dsimp only
    generalize hf : List.findSome? _ (List.range 17) = found
    cases found with
    | none => exact ⟨rfl, x.toDouble_exactDecimal⟩
    | some d =>
      obtain ⟨i, -, hi⟩ := List.exists_of_findSome?_eq_some hf
      obtain ⟨steps, hsteps, rfl⟩ := Option.map_eq_some_iff.mp hi
      rw [Option.getD_some]
      refine ⟨Decimal.negative_trim _ _ _, ?_⟩
      rw [Decimal.toDouble_trim]
      exact toDouble_of_namedBy (namedBy_of_neighbour? hsteps)

/-- Only zero is written without digits, and then without an exponent. -/
theorem exponent_shortest_of_zero {tie : Tie} {x : Finite} (h : (x.shortest tie).digits = 0) :
    (x.shortest tie).exponent = 0 := by
  have hx : x.mantissa = 0 := by
    have hd := (shortest_spec tie x).2
    generalize x.shortest tie = d at h hd
    obtain ⟨negative, digits, exponent⟩ := d
    obtain rfl : digits = 0 := h
    rw [Decimal.toDouble_zero] at hd
    cases hd
    rfl
  rw [shortest, if_pos hx]

end PostfixRules.Finite
