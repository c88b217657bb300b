import PostfixRules.Number.Power

/-!
# Rounding a quotient

A quotient of natural numbers is rounded to the nearest whole number. The two ways to treat a
quotient halfway between two whole numbers are named once and for all.
-/

namespace PostfixRules

/-- Which way a value halfway between two neighbours goes. -/
inductive Tie where
  /-- To the neighbour that is even. -/
  | even
  /-- To the larger neighbour. -/
  | up
  deriving DecidableEq, Repr

/-- The whole number nearest to `num / den`. -/
def roundDiv (tie : Tie) (num den : Nat) : Nat :=
  let low := num / den
  let twice := 2 * (num % den)
  if twice < den then low
  else if den < twice then low + 1
  else match tie with
    | .up => low + 1
    | .even => if low % 2 = 0 then low else low + 1

end PostfixRules
