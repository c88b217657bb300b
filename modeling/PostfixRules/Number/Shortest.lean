import PostfixRules.Number.Decimal

/-!
# Shortest decimals

Every finite double is named by a decimal of at most 17 digits. `Finite.shortest` gives one with
the fewest digits that reads back as the number, and among those the one nearest to it. A
candidate is accepted only after it has been read back, and should none be accepted the exact
expansion of the number stands in, so reading back never fails.
-/

namespace PostfixRules

namespace Decimal

/-- The digits without trailing zeros, which move to the exponent. -/
def trim (negative : Bool) (digits : Nat) (exponent : Int) : Decimal :=
  if digits = 0 then ⟨negative, 0, 0⟩
  else if digits % 10 = 0 then trim negative (digits / 10) (exponent + 1)
  else ⟨negative, digits, exponent⟩
termination_by digits

end Decimal

namespace Finite

/-- How often a positive magnitude below one has to be multiplied by ten to reach one; `fuel`
bounds the count, and 324 is enough for every double. -/
def tenfoldsToOne : Nat → Nat → Nat
  | 0, _ => 0
  | fuel + 1, units =>
    if unitsPerOne ≤ units then 0 else tenfoldsToOne fuel (10 * units) + 1

/-- The number of decimal places before the point: the `p` for which a positive magnitude lies
from `10 ^ (p - 1)` up to, but not including, `10 ^ p`. -/
def places (x : Finite) : Int :=
  if unitsPerOne ≤ x.units then ((Text.decimal (x.units / unitsPerOne)).length : Int)
  else 1 - (tenfoldsToOne 324 x.units : Int)

/-- The magnitude counted in steps of `10 ^ grid`, as a quotient. -/
def onGrid (x : Finite) (grid : Int) : Nat × Nat :=
  match grid with
  | .ofNat g => (x.units, unitsPerOne * 10 ^ g)
  | .negSucc k => (x.units * 10 ^ (k + 1), unitsPerOne)

/-- Whether so many steps of `10 ^ grid` read back as the number. -/
def namedBy (x : Finite) (steps : Nat) (grid : Int) : Bool :=
  Decimal.toDouble ⟨x.negative, steps, grid⟩ == .finite x

/-- The neighbour of the number on a grid that reads back as the number: the nearer one if it
does, else the other one. -/
def neighbour? (tie : Tie) (x : Finite) (grid : Int) : Option Nat :=
  let (num, den) := x.onGrid grid
  let low := num / den
  let near := roundDiv tie num den
  let far := if near = low then low + 1 else low
  if x.namedBy near grid then some near else if x.namedBy far grid then some far else none

/-- The decimal expansion without any rounding, a multiple of `10 ^ -1074`. -/
def exactDecimal (x : Finite) : Decimal :=
  ⟨x.negative, x.units * 5 ^ (1074 : Nat), -1074⟩

theorem exactDecimal_eq (x : Finite) {u : Nat} (hu : u = 1074) :
    x.exactDecimal = ⟨x.negative, x.units * 5 ^ u, -(u : Int)⟩ := by
  subst hu
  rfl

/-- The decimal with the fewest digits that reads back as the number, of those the nearest, and of
two equally near the one that `tie` names. -/
def shortest (tie : Tie) (x : Finite) : Decimal :=
  if x.mantissa = 0 then ⟨x.negative, 0, 0⟩
  else
    let places := x.places
    let found := (List.range 17).findSome? fun (i : Nat) =>
      let grid := places - ((i + 1 : Nat) : Int)
      (x.neighbour? tie grid).map fun steps => Decimal.trim x.negative steps grid
    found.getD x.exactDecimal

end Finite

end PostfixRules
