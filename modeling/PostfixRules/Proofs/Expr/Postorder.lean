import Mathlib.Data.List.Forall2
import Mathlib.Data.List.Nodup
import PostfixRules.Proofs.Expr.Address

/-!
# Nodes in postorder

In postorder a node comes after everything on its left, and after that everything on its right. The
list of addresses in this order has every node of the tree once, the root at its end, and one entry
less than twice the number of comparisons. Written out as a path, an address is still recognised:
different addresses have different paths.
-/

namespace PostfixRules

/-! ## Paths -/

/-- What a step to a side adds to a path. -/
def Side.suffix : Side → String
  | .left => ".left"
  | .right => ".right"

/-- Whatever follows a step, what it added to the path tells its side. -/
theorem Side.eq_of_suffix {side side' : Side} {rest rest' : List Char}
    (h : side.suffix.toList ++ rest = side'.suffix.toList ++ rest') : side = side' := by
  cases side with
  | left =>
    cases side' with
    | left => rfl
    | right => simp [suffix] at h
  | right =>
    cases side' with
    | left => simp [suffix] at h
    | right => rfl

/-- The path to an address below a node that has a path itself. -/
def Address.pathFrom (path : String) : Address → String
  | [] => path
  | side :: rest => pathFrom (path ++ side.suffix) rest

namespace Address

/-- A path is written step by step. -/
theorem toList_pathFrom (path : String) (address : Address) :
    (address.pathFrom path).toList = path.toList ++ address.flatMap (·.suffix.toList) := by
  induction address generalizing path with
  | nil => rw [pathFrom, List.flatMap_nil, List.append_nil]
  | cons side rest ih =>
    rw [pathFrom, ih, String.toList_append, List.flatMap_cons, List.append_assoc]

/-- The steps are read off what is written of them. -/
theorem flatMap_suffix_injective :
    Function.Injective fun address : Address => address.flatMap (·.suffix.toList) := by
  intro address other h
  induction address generalizing other with
  | nil =>
    cases other with
    | nil => rfl
    | cons side rest => cases side <;> cases h
  | cons side rest ih =>
    cases other with
    | nil => cases side <;> cases h
    | cons side' rest' =>
      simp only [List.flatMap_cons] at h
      obtain rfl := Side.eq_of_suffix h
      rw [ih (List.append_cancel_left h)]

/-- Different addresses have different paths. -/
theorem pathFrom_injective (path : String) : Function.Injective (pathFrom path) := by
  intro address other h
  have hlist := congrArg String.toList h
  rw [toList_pathFrom, toList_pathFrom, List.append_cancel_left_eq] at hlist
  exact flatMap_suffix_injective hlist

end Address

/-! ## The order -/

namespace Expr

/-- The addresses of the nodes of a tree: those on the left, those on the right, and the root. -/
def postorder : Expr → List Address
  | .comparison _ _ _ => [[]]
  | .logical _ left right =>
    left.postorder.map (.left :: ·) ++ right.postorder.map (.right :: ·) ++ [[]]

/-- Everything that stands in a tree is in the order, and nothing else. -/
theorem mem_postorder_iff {expr : Expr} {address : Address} :
    address ∈ expr.postorder ↔ ∃ node, expr.at? address = some node := by
  induction expr generalizing address with
  | comparison operator field value =>
    cases address <;> simp [postorder, at?]
  | logical operator left right ihl ihr =>
    cases address with
    | nil => simp [postorder]
    | cons side rest =>
      cases side <;> simp [postorder, at?, ihl, ihr]

/-- No node is repeated. -/
theorem nodup_postorder (expr : Expr) : expr.postorder.Nodup := by
  induction expr with
  | comparison operator field value => exact List.nodup_singleton []
  | logical operator left right ihl ihr =>
    have hleft := ihl.map (List.cons_injective (a := Side.left))
    have hright := ihr.map (List.cons_injective (a := Side.right))
    have hsides : List.Disjoint (left.postorder.map (.left :: ·))
        (right.postorder.map (.right :: ·)) := by
      intro address hl hr
      obtain ⟨_, -, rfl⟩ := List.mem_map.mp hl
      obtain ⟨_, -, h⟩ := List.mem_map.mp hr
      cases h
    refine (hleft.append hright hsides).append (List.nodup_singleton []) ?_
    rw [List.disjoint_singleton]
    intro hroot
    rcases List.mem_append.mp hroot with h | h
    · obtain ⟨_, -, h⟩ := List.mem_map.mp h
      cases h
    · obtain ⟨_, -, h⟩ := List.mem_map.mp h
      cases h

/-- There is one logical node less than there are comparisons. -/
theorem length_postorder (expr : Expr) :
    expr.postorder.length + 1 = 2 * expr.comparisonCount := by
  induction expr with
  | comparison operator field value => rfl
  | logical operator left right ihl ihr =>
    simp only [postorder, List.length_append, List.length_map, List.length_singleton,
      comparisonCount]
    omega

/-- The root comes last. -/
theorem exists_postorder_eq_concat (expr : Expr) : ∃ before, expr.postorder = before ++ [[]] := by
  cases expr with
  | comparison operator field value => exact ⟨[], rfl⟩
  | logical operator left right => exact ⟨_, rfl⟩

end Expr

end PostfixRules
