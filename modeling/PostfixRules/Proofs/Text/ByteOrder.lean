import PostfixRules.Text.ByteOrder

/-!
# The byte order is a linear order

Different texts have different bytes, and sequences of bytes are in dictionary order. The order of
texts by their bytes is therefore transitive, and only equal texts are at the same place in it.
-/

namespace PostfixRules.Text

/-- A text is determined by its bytes. -/
theorem utf8_injective : Function.Injective utf8 := by
  intro a b h
  have hbytes : a.toList.utf8Encode = b.toList.utf8Encode :=
    congrArg List.toByteArray h
  rw [String.utf8Encode_toList, String.utf8Encode_toList] at hbytes
  exact String.toByteArray_inj.mp hbytes

theorem compareBytes_eq_compareLex (a b : List UInt8) :
    compareBytes a b = List.compareLex compare a b := by
  induction a generalizing b with
  | nil => cases b <;> rfl
  | cons x a ih =>
    cases b with
    | nil => rfl
    | cons y b => rw [compareBytes, List.compareLex_cons_cons, ih]

instance : Std.TransCmp byteOrder where
  eq_swap := by
    intro a b
    simp only [byteOrder, compareBytes_eq_compareLex]
    exact Std.OrientedCmp.eq_swap
  isLE_trans := by
    intro a b c
    simp only [byteOrder, compareBytes_eq_compareLex]
    exact Std.TransCmp.isLE_trans

instance : Std.LawfulEqCmp byteOrder where
  compare_self := by
    intro a
    simp only [byteOrder, compareBytes_eq_compareLex]
    exact Std.ReflCmp.compare_self
  eq_of_compare := by
    intro a b h
    simp only [byteOrder, compareBytes_eq_compareLex] at h
    exact utf8_injective (Std.LawfulEqCmp.eq_of_compare h)

end PostfixRules.Text
