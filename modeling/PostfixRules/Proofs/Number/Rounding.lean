import Mathlib.Tactic.Ring
import PostfixRules.Number.Rounding

/-!
# Rounded quotients are nearest

The rounded quotient of two numbers depends only on their ratio, is exact where the division is, and
is never further than half a step away. Half a step already makes it nearest among all multiples of
the step, and where another multiple is equally near the tie decides.
-/

namespace PostfixRules

/-- Rounding keeps the quotient up to half a step and goes on to the next number from there; at
exactly half a step the tie decides. -/
theorem roundDiv_cases (tie : Tie) (num den : Nat) :
    (roundDiv tie num den = num / den ∧ 2 * (num % den) ≤ den ∧
        (2 * (num % den) = den → tie = .even ∧ num / den % 2 = 0)) ∨
      (roundDiv tie num den = num / den + 1 ∧ den ≤ 2 * (num % den) ∧
        (2 * (num % den) = den → tie = .even → num / den % 2 = 1)) := by
  unfold roundDiv
  dsimp only
  by_cases hlow : 2 * (num % den) < den
  · rw [if_pos hlow]
    exact .inl ⟨rfl, by omega, by omega⟩
  · rw [if_neg hlow]
    by_cases hhigh : den < 2 * (num % den)
    · rw [if_pos hhigh]
      exact .inr ⟨rfl, by omega, by omega⟩
    · rw [if_neg hhigh]
      cases tie with
      | up => exact .inr ⟨rfl, by omega, by simp⟩
      | even =>
        by_cases heven : num / den % 2 = 0
        · exact .inl ⟨if_pos heven, by omega, fun _ => ⟨rfl, heven⟩⟩
        · exact .inr ⟨if_neg heven, by omega, by omega⟩

/-- A common factor of both numbers does not matter. -/
theorem roundDiv_mul_right (tie : Tie) (num den : Nat) {c : Nat} (hc : 0 < c) :
    roundDiv tie (num * c) (den * c) = roundDiv tie num den := by
  have hq : num * c / (den * c) = num / den := Nat.mul_div_mul_right num den hc
  have hr : 2 * (num * c % (den * c)) = 2 * (num % den) * c := by
    rw [Nat.mul_mod_mul_right, Nat.mul_assoc]
  have hlt : 2 * (num * c % (den * c)) < den * c ↔ 2 * (num % den) < den := by
    rw [hr]
    exact Nat.mul_lt_mul_right hc
  have hgt : den * c < 2 * (num * c % (den * c)) ↔ den < 2 * (num % den) := by
    rw [hr]
    exact Nat.mul_lt_mul_right hc
  simp only [roundDiv, hq, hlt, hgt]

/-- A multiple is rounded to its factor. -/
theorem roundDiv_mul_self (tie : Tie) (q : Nat) {den : Nat} (hd : 0 < den) :
    roundDiv tie (q * den) den = q := by
  have hm : q * den % den = 0 := Nat.mul_mod_left q den
  have hq : q * den / den = q := Nat.mul_div_cancel q hd
  rcases roundDiv_cases tie (q * den) den with ⟨h, -, -⟩ | ⟨-, h, -⟩
  · rw [h, hq]
  · omega

/-- Less than half a step is rounded to nothing. -/
theorem roundDiv_eq_zero {tie : Tie} {num den : Nat} (h : 2 * num < den) :
    roundDiv tie num den = 0 := by
  have hm : num % den = num := Nat.mod_eq_of_lt (by omega)
  have hq : num / den = 0 := Nat.div_eq_of_lt (by omega)
  rcases roundDiv_cases tie num den with ⟨hr, -, -⟩ | ⟨-, hr, -⟩
  · rw [hr, hq]
  · omega

/-- A quotient is cut into whole steps and what is left over. -/
private theorem quotient_steps (num den : Nat) :
    num / den * den + num % den = num ∧ (num / den + 1) * den = num / den * den + den :=
  ⟨by rw [Nat.mul_comm]; exact Nat.div_add_mod num den, by ring⟩

/-- The error of rounding is at most half a step, to either side. -/
theorem roundDiv_error (tie : Tie) (num : Nat) {den : Nat} (hd : 0 < den) :
    2 * num ≤ 2 * (roundDiv tie num den * den) + den ∧
      2 * (roundDiv tie num den * den) ≤ 2 * num + den := by
  obtain ⟨hnum, hup⟩ := quotient_steps num den
  have hmod := Nat.mod_lt num hd
  rcases roundDiv_cases tie num den with ⟨h, hle, -⟩ | ⟨h, hge, -⟩ <;> rw [h] <;> omega

/-- An error of exactly half a step leaves an even number, if ties go there. -/
theorem roundDiv_even_of_tie {num den : Nat} (hd : 0 < den)
    (h : 2 * num = 2 * (roundDiv .even num den * den) + den ∨
      2 * (roundDiv .even num den * den) = 2 * num + den) : roundDiv .even num den % 2 = 0 := by
  obtain ⟨hnum, hup⟩ := quotient_steps num den
  have hmod := Nat.mod_lt num hd
  rcases roundDiv_cases .even num den with ⟨hr, -, htie⟩ | ⟨hr, -, htie⟩
  · rw [hr] at h ⊢
    exact (htie (by omega)).2
  · rw [hr] at h ⊢
    have := htie (by omega) rfl
    omega

/-- Different multiples of the step are at least one step apart. -/
theorem mul_add_le_mul {m n : Nat} (den : Nat) (h : m < n) : m * den + den ≤ n * den := by
  have hstep := Nat.mul_le_mul_right den (Nat.succ_le_of_lt h)
  rwa [Nat.succ_mul] at hstep

/-- No multiple of the step is nearer than the rounded one. -/
theorem roundDiv_nearest (tie : Tie) (num k : Nat) {den : Nat} (hd : 0 < den) :
    ((roundDiv tie num den * den : Nat) - (num : Int)).natAbs ≤
      ((k * den : Nat) - (num : Int)).natAbs := by
  obtain ⟨hlow, hhigh⟩ := roundDiv_error tie num hd
  rcases Nat.lt_trichotomy k (roundDiv tie num den) with hk | rfl | hk
  · have hstep := mul_add_le_mul den hk
    omega
  · exact Nat.le_refl _
  · have hstep := mul_add_le_mul den hk
    omega

/-- Another multiple is equally near only at a tie, which leaves an even number. -/
theorem roundDiv_even_of_nearest {num k den : Nat} (hd : 0 < den)
    (hk : k ≠ roundDiv .even num den)
    (h : ((k * den : Nat) - (num : Int)).natAbs =
      ((roundDiv .even num den * den : Nat) - (num : Int)).natAbs) :
    roundDiv .even num den % 2 = 0 := by
  obtain ⟨hlow, hhigh⟩ := roundDiv_error .even num hd
  apply roundDiv_even_of_tie hd
  rcases Nat.lt_or_gt_of_ne hk with hk | hk
  · have hstep := mul_add_le_mul den hk
    omega
  · have hstep := mul_add_le_mul den hk
    omega

end PostfixRules
