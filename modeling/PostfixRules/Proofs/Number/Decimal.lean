import Mathlib.Tactic.Positivity
import PostfixRules.Number.Shortest
import PostfixRules.Proofs.Number.Double
import PostfixRules.Proofs.Text.Digits

/-!
# The double that a decimal names

The shortcuts for very large and very small exponents change no answer: every decimal names the
double nearest to its value. The double therefore depends on the value alone, not on how the value
is divided between digits and exponent. Reading a decimal text collects its digits and its exponent.
-/

namespace PostfixRules

/-- Two quotients of one value have one nearest double. -/
theorem Double.ofRatio_congr (negative : Bool) {a b c d : Nat} (hb : 0 < b) (hd : 0 < d)
    (h : a * d = c * b) : ofRatio negative a b = ofRatio negative c d := by
  rw [← ofRatio_mul_right negative a b hd, ← ofRatio_mul_right negative c d hb, h,
    Nat.mul_comm b d]

namespace Decimal

/-- The value of a decimal is the quotient of these two numbers. -/
def num (d : Decimal) : Nat :=
  d.digits * 10 ^ d.exponent.toNat

/-- The power of ten that divides the digits. -/
def den (d : Decimal) : Nat :=
  10 ^ (-d.exponent).toNat

theorem den_pos (d : Decimal) : 0 < d.den :=
  Nat.pow_pos (by decide)

theorem two_pow_le_ten_pow (n : Nat) : 2 ^ (3 * n) ≤ 10 ^ n := by
  rw [Nat.pow_mul]
  exact Nat.pow_le_pow_left (by decide) n

/-- A number of more than 400 places is beyond the grids of finite doubles. -/
theorem gridShift_of_large {digits e : Nat} (hd : digits ≠ 0) (he : 400 < e) :
    2045 < Double.gridShift (digits * 10 ^ e) 1 := by
  obtain ⟨u, hu⟩ : ∃ u, u = 1074 := ⟨1074, rfl⟩
  have hpow : 2 ^ (3 * e) ≤ digits * 10 ^ e :=
    (two_pow_le_ten_pow e).trans (Nat.le_mul_of_pos_left _ (Nat.pos_of_ne_zero hd))
  have hunits : 2 ^ (3 * e + u) ≤ digits * 10 ^ e * unitsPerOne := by
    rw [Nat.pow_add, unitsPerOne_eq hu]
    exact Nat.mul_le_mul_right _ hpow
  have hne : digits * 10 ^ e * unitsPerOne ≠ 0 :=
    (Nat.lt_of_lt_of_le (Nat.two_pow_pos _) hunits).ne'
  have hlog : 3 * e + u ≤ (digits * 10 ^ e * unitsPerOne).log2 := (Nat.le_log2 hne).mpr hunits
  rw [Double.gridShift, Nat.div_one]
  omega

/-- Digits that many places behind the point are less than half a unit. -/
theorem units_of_small {digits k : Nat} (hk : digits.log2 + 1081 < 3 * (k + 1)) :
    2 * (digits * unitsPerOne) < 10 ^ (k + 1) := by
  obtain ⟨u, hu⟩ : ∃ u, u = 1074 := ⟨1074, rfl⟩
  have hlt := Nat.mul_lt_mul_of_pos_right (Nat.lt_log2_self (n := digits)) unitsPerOne_pos
  calc 2 * (digits * unitsPerOne) < 2 * (2 ^ (digits.log2 + 1) * unitsPerOne) := by omega
    _ = 2 ^ (digits.log2 + 1 + u + 1) := by rw [unitsPerOne_eq hu]; ring
    _ ≤ 2 ^ (3 * (k + 1)) := Nat.pow_le_pow_right (by decide) (by omega)
    _ ≤ 10 ^ (k + 1) := two_pow_le_ten_pow _

/-- Every decimal names the double nearest to its value. -/
theorem toDouble_eq (d : Decimal) : d.toDouble = Double.ofRatio d.negative d.num d.den := by
  obtain ⟨negative, digits, exponent⟩ := d
  simp only [toDouble, num, den]
  split_ifs with hd
  · rw [hd, Nat.zero_mul, Double.ofRatio_zero]
    rw [Nat.zero_mul, Nat.mul_zero]
    exact Nat.pow_pos (by decide)
  · cases exponent with
    | ofNat e =>
      have hneg : (-(Int.ofNat e)).toNat = 0 := by simp
      simp only [Int.ofNat_eq_natCast, Int.toNat_natCast] at hneg ⊢
      rw [hneg, Nat.pow_zero]
      split_ifs with he
      · rw [Double.ofRatio_infinity _ (gridShift_of_large hd he)]
      · rfl
    | negSucc k =>
      have hpos : (-(Int.negSucc k)).toNat = k + 1 := by simp
      have hneg : (Int.negSucc k).toNat = 0 := rfl
      simp only [hpos, hneg, Nat.pow_zero, Nat.mul_one]
      split_ifs with hk
      · rw [Double.ofRatio_zero _ (units_of_small hk)]
      · rfl

/-- Zeros behind the digits are a part of the exponent. -/
theorem toDouble_mul_pow (negative : Bool) (digits n : Nat) (exponent : Int) :
    toDouble ⟨negative, digits * 10 ^ n, exponent⟩ =
      toDouble ⟨negative, digits, exponent + (n : Int)⟩ := by
  rw [toDouble_eq, toDouble_eq]
  apply Double.ofRatio_congr negative (den_pos _) (den_pos _)
  simp only [num, den]
  have hexp : n + exponent.toNat + (-(exponent + (n : Int))).toNat =
      (exponent + (n : Int)).toNat + (-exponent).toNat := by omega
  calc digits * 10 ^ n * 10 ^ exponent.toNat * 10 ^ (-(exponent + (n : Int))).toNat =
        digits * 10 ^ (n + exponent.toNat + (-(exponent + (n : Int))).toNat) := by
          rw [Nat.pow_add, Nat.pow_add]; ring
    _ = digits * 10 ^ ((exponent + (n : Int)).toNat + (-exponent).toNat) := by rw [hexp]
    _ = _ := by rw [Nat.pow_add]; ring

theorem toDouble_zero (negative : Bool) (exponent : Int) :
    toDouble ⟨negative, 0, exponent⟩ = .finite (Finite.zero negative) := if_pos rfl

/-- Trimming keeps the double that is named. -/
theorem toDouble_trim (negative : Bool) (digits : Nat) (exponent : Int) :
    (trim negative digits exponent).toDouble = toDouble ⟨negative, digits, exponent⟩ := by
  fun_induction trim negative digits exponent with
  | case1 exponent => rw [toDouble_zero, toDouble_zero]
  | case2 digits exponent hz hten ih =>
    have hd : digits = digits / 10 * 10 ^ 1 := by omega
    rw [ih]
    conv_rhs => rw [hd, toDouble_mul_pow]
    rfl
  | case3 => rfl

theorem negative_trim (negative : Bool) (digits : Nat) (exponent : Int) :
    (trim negative digits exponent).negative = negative := by
  fun_induction trim negative digits exponent with
  | case1 | case3 => rfl
  | case2 digits exponent hz hten ih => exact ih

end Decimal

end PostfixRules
