import Mathlib.Order.Compare
import PostfixRules.Proofs.Text.ByteOrder
import PostfixRules.Rule

/-!
# The order of listing

Instants are in a linear order, and so are ids. Rules are compared by the one and then by the other,
so two rules are at the same place in the order of listing only if both their creation times and
their ids are equal.
-/

namespace PostfixRules

/-- A comparison of parts is transitive if the comparison is. -/
private theorem transCmp_on {α β : Type} (cmp : β → β → Ordering) [Std.TransCmp cmp]
    (part : α → β) : Std.TransCmp fun a b => cmp (part a) (part b) where
  eq_swap := Std.OrientedCmp.eq_swap
  isLE_trans := Std.TransCmp.isLE_trans

namespace Timestamp

instance : Std.TransCmp order :=
  have := transCmp_on compare seconds
  have := transCmp_on compare nanos
  inferInstanceAs (Std.TransCmp (compareLex (fun a b : Timestamp => compare a.seconds b.seconds)
    fun a b => compare a.nanos b.nanos))

instance : Std.LawfulEqCmp order where
  compare_self := by
    intro a
    simp [order]
  eq_of_compare := by
    intro a b h
    rw [order, Ordering.then_eq_eq] at h
    have hseconds : a.seconds = b.seconds := Std.LawfulEqCmp.eq_of_compare h.1
    have hnanos : a.nanos = b.nanos := Std.LawfulEqCmp.eq_of_compare h.2
    cases a
    cases b
    cases hseconds
    cases hnanos
    rfl

end Timestamp

namespace Rule

instance : Std.TransCmp order :=
  have := transCmp_on Timestamp.order createdAt
  have := transCmp_on Text.byteOrder id
  inferInstanceAs (Std.TransCmp (compareLex (fun a b : Rule => a.createdAt.order b.createdAt)
    fun a b => Text.byteOrder a.id b.id))

/-- A rule comes before another if it was created earlier, or at the same time and its id has the
smaller bytes. -/
def Precedes (a b : Rule) : Prop :=
  a.createdAt.order b.createdAt = .lt ∨
    a.createdAt = b.createdAt ∧ Text.byteOrder a.id b.id = .lt

theorem order_eq_lt_iff {a b : Rule} : a.order b = .lt ↔ a.Precedes b := by
  rw [order, Ordering.then_eq_lt, Std.LawfulEqCmp.compare_eq_iff_eq, Precedes]

/-- Rules at the same place in the order have one id. -/
theorem id_eq_of_order_eq {a b : Rule} (h : a.order b = .eq) : a.id = b.id := by
  rw [order, Ordering.then_eq_eq] at h
  exact Std.LawfulEqCmp.eq_of_compare h.2

theorem Precedes.asymm {a b : Rule} (h : a.Precedes b) : ¬ b.Precedes a := by
  rw [← order_eq_lt_iff] at h ⊢
  rw [Std.OrientedCmp.gt_of_lt h]
  exact fun hlt => by cases hlt

theorem le_iff {a b : Rule} : le a b = true ↔ (a.order b).isLE = true := by
  rw [le]
  cases a.order b <;> decide

/-- Of two rules with different ids the one that does not come after the other comes before it. -/
theorem precedes_of_le {a b : Rule} (h : le a b = true) (hid : a.id ≠ b.id) : a.Precedes b := by
  rw [← order_eq_lt_iff]
  rw [le_iff, Ordering.isLE_iff_eq_lt_or_eq_eq] at h
  exact h.resolve_right fun heq => hid (id_eq_of_order_eq heq)

/-- Sorted in this order, no rule of a list comes before an earlier one. -/
theorem pairwise_mergeSort (rules : List Rule) :
    (rules.mergeSort le).Pairwise fun a b => le a b = true := by
  refine List.pairwise_mergeSort ?_ ?_ rules
  · intro a b c hab hbc
    rw [le_iff] at hab hbc ⊢
    exact Std.TransCmp.isLE_trans hab hbc
  · intro a b
    have hswap : b.order a = (a.order b).swap := Std.OrientedCmp.eq_swap
    rw [Bool.or_eq_true, le_iff, le_iff, hswap]
    cases a.order b <;> decide

end Rule

end PostfixRules
