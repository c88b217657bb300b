import Mathlib.Tactic.Common
import PostfixRules.Expr

/-!
# Addresses in a tree

A node of a tree is named by the sides to take from the root to it. Going through a tree in depth,
from left to right, comes to a node before the nodes below it, and to everything on the left before
anything on the right; the first address of a kind in this order is unique.
-/

namespace PostfixRules

/-- A side of a logical node. -/
inductive Side where
  | left
  | right
  deriving DecidableEq, Repr

/-- What stands on a side. -/
def Side.pick {α : Type} (left right : α) : Side → α
  | .left => left
  | .right => right

/-- The sides to take from the root of a tree to one of its nodes. -/
abbrev Address := List Side

namespace Address

/-- The order in which the nodes of a tree are come to in depth, from left to right. -/
inductive Precedes : Address → Address → Prop where
  | ancestor (side : Side) (rest : Address) : Precedes [] (side :: rest)
  | apart (left right : Address) : Precedes (.left :: left) (.right :: right)
  | inside (side : Side) {address other : Address} (h : Precedes address other) :
    Precedes (side :: address) (side :: other)

theorem Precedes.asymm {address other : Address} (h : Precedes address other) :
    ¬ Precedes other address := by
  induction h with
  | ancestor side rest => intro h'; cases h'
  | apart left right => intro h'; cases h'
  | inside side _ ih =>
    intro h'
    cases h' with
    | inside _ h' => exact ih h'

/-- An address of a kind that precedes all others of the kind. -/
structure IsFirst (kind : Address → Prop) (address : Address) : Prop where
  holds : kind address
  precedes : ∀ other, kind other → other ≠ address → Precedes address other

theorem IsFirst.unique {kind : Address → Prop} {address other : Address}
    (h : IsFirst kind address) (h' : IsFirst kind other) : address = other := by
  by_contra hne
  exact (h.precedes other h'.holds (Ne.symm hne)).asymm (h'.precedes address h.holds hne)

/-- The first address on the left is the first one of all. -/
theorem IsFirst.of_left {kind : Address → Prop} {address : Address} (hroot : ¬ kind [])
    (h : IsFirst (fun rest => kind (.left :: rest)) address) : IsFirst kind (.left :: address) where
  holds := h.holds
  precedes := by
    intro other hother hne
    match other with
    | [] => exact absurd hother hroot
    | .left :: rest =>
      have hrest : rest ≠ address := fun heq => hne (congrArg _ heq)
      exact .inside .left (h.precedes rest hother hrest)
    | .right :: rest => exact .apart address rest

/-- If there is none on the left, the first address on the right is the first one of all. -/
theorem IsFirst.of_right {kind : Address → Prop} {address : Address} (hroot : ¬ kind [])
    (hleft : ∀ rest, ¬ kind (.left :: rest))
    (h : IsFirst (fun rest => kind (.right :: rest)) address) :
    IsFirst kind (.right :: address) where
  holds := h.holds
  precedes := by
    intro other hother hne
    match other with
    | [] => exact absurd hother hroot
    | .left :: rest => exact absurd hother (hleft rest)
    | .right :: rest =>
      have hrest : rest ≠ address := fun heq => hne (congrArg _ heq)
      exact .inside .right (h.precedes rest hother hrest)

/-- The first address on a side is the first one of all, if the side is the left one or there is
none on the left. -/
theorem IsFirst.of_side {kind : Address → Prop} {address : Address} (side : Side)
    (hroot : ¬ kind []) (hleft : side = .right → ∀ rest, ¬ kind (.left :: rest))
    (h : IsFirst (fun rest => kind (side :: rest)) address) : IsFirst kind (side :: address) := by
  cases side with
  | left => exact h.of_left hroot
  | right => exact h.of_right hroot (hleft rfl)

/-- If the root is the only address of a kind, it is the first one. -/
theorem IsFirst.root {kind : Address → Prop} (h : kind [])
    (honly : ∀ other, kind other → other = []) : IsFirst kind [] where
  holds := h
  precedes := fun other hother hne => absurd (honly other hother) hne

end Address

namespace Expr

/-- The part of a tree that stands at an address, if the tree goes that far. -/
def at? : Expr → Address → Option Expr
  | expr, [] => some expr
  | .comparison _ _ _, _ :: _ => none
  | .logical _ left _, .left :: rest => left.at? rest
  | .logical _ _ right, .right :: rest => right.at? rest

@[simp]
theorem at?_nil (expr : Expr) : expr.at? [] = some expr := by
  cases expr <;> rfl

theorem at?_logical_cons (operator : LogicalOperator) (left right : Expr) (side : Side)
    (rest : Address) :
    (logical operator left right).at? (side :: rest) = (side.pick left right).at? rest := by
  cases side <;> rfl

end Expr

end PostfixRules
