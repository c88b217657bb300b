import PostfixRules.Number.Rounding

/-!
# Double-precision numbers

A finite number is a sign and a magnitude `mantissa * 2 ^ shift` counted in units of
`2 ^ -1074`, the distance between the smallest representable numbers. The representation is
unique: a mantissa below `2 ^ 52` occurs only with shift zero. All arithmetic is exact, on
natural numbers and integers; the only rounding is `Double.ofRatio`, to nearest with ties to
even.
-/

namespace PostfixRules

/-- How many of the smallest units make one. -/
def unitsPerOne : Nat := 2 ^ (1074 : Nat)

/-- The exponent may be given by a name, so that the power is not computed. -/
theorem unitsPerOne_eq {u : Nat} (hu : u = 1074) : unitsPerOne = 2 ^ u := by
  subst hu
  rfl

theorem unitsPerOne_pos : 0 < unitsPerOne := by
  simp only [unitsPerOne, Nat.two_pow_pos]

/-- A finite double-precision number, with a zero of either sign. -/
structure Finite where
  /-- Whether the sign bit is set; it is also kept on a zero. -/
  negative : Bool
  /-- The 53 significant bits. -/
  mantissa : Nat
  /-- The power of two by which the mantissa is multiplied. -/
  shift : Nat
  mantissa_lt : mantissa < 2 ^ (53 : Nat)
  shift_le : shift ≤ 2045
  /-- Only numbers of the lowest binade may have a short mantissa. -/
  normal : shift = 0 ∨ 2 ^ (52 : Nat) ≤ mantissa
  deriving DecidableEq, Repr

namespace Finite

/-- Zero with a chosen sign. -/
def zero (negative : Bool) : Finite :=
  ⟨negative, 0, 0, by decide, by decide, .inl rfl⟩

/-- The magnitude as a number of smallest units. -/
def units (x : Finite) : Nat :=
  x.mantissa * 2 ^ x.shift

/-- The exact value as a number of smallest units; both zeros count none. -/
def signedUnits (x : Finite) : Int :=
  if x.negative then -(x.units : Int) else (x.units : Int)

/-- Exact comparison of values. -/
def order (x y : Finite) : Ordering :=
  compare x.signedUnits y.signedUnits

/-- Whether the value is a whole number. -/
def isWhole (x : Finite) : Bool :=
  x.units % unitsPerOne == 0

/-- The value with its fraction dropped. -/
def whole (x : Finite) : Int :=
  let magnitude := x.units / unitsPerOne
  if x.negative then -(magnitude : Int) else (magnitude : Int)

/-- The magnitude rounded to a whole number, a half going up. -/
def roundedMagnitude (x : Finite) : Nat :=
  roundDiv .up x.units unitsPerOne

/-- The number with these parts, if the parts are within range and in normal form. -/
def ofParts? (negative : Bool) (mantissa shift : Nat) : Option Finite :=
  if h : mantissa < 2 ^ (53 : Nat) ∧ shift ≤ 2045 ∧ (shift = 0 ∨ 2 ^ (52 : Nat) ≤ mantissa) then
    some ⟨negative, mantissa, shift, h.1, h.2.1, h.2.2⟩
  else none

end Finite

/-- A double-precision number. -/
inductive Double where
  | finite (value : Finite)
  | infinity (negative : Bool)
  | nan
  deriving DecidableEq, Repr

namespace Double

/-- The number with these parts, or the infinity of the sign when the parts are beyond the
largest finite number. -/
def ofParts (negative : Bool) (mantissa shift : Nat) : Double :=
  match Finite.ofParts? negative mantissa shift with
  | some x => .finite x
  | none => .infinity negative

/-- The double nearest to `num / den`, ties to even. Rounding may carry the mantissa to
`2 ^ 53`, which is the next binade's `2 ^ 52`. -/
def ofRatio (negative : Bool) (num den : Nat) : Double :=
  let scaled := num * unitsPerOne
  let shift := (scaled / den).log2 - 52
  let mantissa := roundDiv .even scaled (den * 2 ^ shift)
  if mantissa = 2 ^ (53 : Nat) then ofParts negative (2 ^ (52 : Nat)) (shift + 1)
  else ofParts negative mantissa shift

/-- The double nearest to an integer. -/
def ofInt (i : Int) : Double :=
  ofRatio (decide (i < 0)) i.natAbs 1

/-- The double nearest to a natural number. -/
def ofNat (n : Nat) : Double :=
  ofRatio false n 1

/-- The finite value, if there is one. -/
def finite? : Double → Option Finite
  | .finite x => some x
  | _ => none

/-- Whether the number is neither an infinity nor not-a-number. -/
def isFinite (x : Double) : Bool :=
  x.finite?.isSome

/-- Comparison of values; a comparison with not-a-number has no answer. -/
def order? : Double → Double → Option Ordering
  | .nan, _ => none
  | _, .nan => none
  | .finite x, .finite y => some (x.order y)
  | .infinity m, .infinity n => some (if m == n then .eq else if m then .lt else .gt)
  | .infinity m, .finite _ => some (if m then .lt else .gt)
  | .finite _, .infinity n => some (if n then .gt else .lt)

end Double

end PostfixRules
