import Mathlib.Tactic.SplitIfs
import PostfixRules.Proofs.Condition

/-!
# Comparing texts

Texts are compared by their bytes, and that is the dictionary order of their scalar values. The
encoding of a character is never empty, so a proper beginning of a text has a proper beginning of
its bytes. If two characters differ, so do their bytes, and the lower character has the lower byte
at the first difference: a longer encoding begins with a greater byte, and encodings of the same
length hold the digits of the scalar value in the base 64, the highest first.
-/

namespace PostfixRules

namespace Text

/-- Whether a text comes before another in the dictionary: it is a proper beginning of the other, or
has the lower scalar value where they first differ. -/
inductive Precedes : List Char → List Char → Prop where
  | beginning (common : List Char) {rest : List Char} (hrest : rest ≠ []) :
    Precedes common (common ++ rest)
  | difference (common : List Char) {c d : Char} (hlower : c.toNat < d.toNat)
    (rest rest' : List Char) : Precedes (common ++ c :: rest) (common ++ d :: rest')

theorem Precedes.cons (c : Char) {chars chars' : List Char} (h : Precedes chars chars') :
    Precedes (c :: chars) (c :: chars') := by
  cases h with
  | beginning _ hrest => exact .beginning (c :: chars) hrest
  | difference common hlower rest rest' => exact .difference (c :: common) hlower rest rest'

/-- Of two texts that are not equal, one comes before the other. -/
theorem precedes_trichotomy (chars chars' : List Char) :
    Precedes chars chars' ∨ chars = chars' ∨ Precedes chars' chars := by
  induction chars generalizing chars' with
  | nil =>
    cases chars' with
    | nil => exact .inr (.inl rfl)
    | cons d rest' => exact .inl (.beginning [] (List.cons_ne_nil d rest'))
  | cons c rest ih =>
    cases chars' with
    | nil => exact .inr (.inr (.beginning [] (List.cons_ne_nil c rest)))
    | cons d rest' =>
      rcases Nat.lt_trichotomy c.toNat d.toNat with hlower | hsame | hhigher
      · exact .inl (.difference [] hlower rest rest')
      · obtain rfl := Char.toNat_inj.mp hsame
        rcases ih rest' with h | rfl | h
        · exact .inl (h.cons c)
        · exact .inr (.inl rfl)
        · exact .inr (.inr (h.cons c))
      · exact .inr (.inr (.difference [] hhigher rest' rest))

/-! ## Bytes of characters -/

/-- The first bytes decide, and if they are equal the others do. -/
theorem compareBytes_cons_eq_lt {m n : Nat} (hm : m < 256) (hn : n < 256)
    (bytes bytes' : List UInt8) :
    compareBytes (.ofNat m :: bytes) (.ofNat n :: bytes') = .lt ↔
      m < n ∨ m = n ∧ compareBytes bytes bytes' = .lt := by
  have hlt : compare (UInt8.ofNat m) (UInt8.ofNat n) = .lt ↔ m < n := by
    rw [Std.compare_eq_lt, UInt8.lt_iff_toNat_lt, UInt8.toNat_ofNat_of_lt' hm,
      UInt8.toNat_ofNat_of_lt' hn]
  have heq : compare (UInt8.ofNat m) (UInt8.ofNat n) = .eq ↔ m = n := by
    rw [Std.LawfulEqOrd.compare_eq_iff_eq, ← UInt8.toNat_inj, UInt8.toNat_ofNat_of_lt' hm,
      UInt8.toNat_ofNat_of_lt' hn]
  rw [compareBytes, Ordering.then_eq_lt, hlt, heq]

theorem compareBytes_append_left (common bytes bytes' : List UInt8) :
    compareBytes (common ++ bytes) (common ++ bytes') = compareBytes bytes bytes' := by
  induction common with
  | nil => rfl
  | cons b common ih =>
    rw [List.cons_append, List.cons_append, compareBytes, ih, Std.ReflOrd.compare_self]
    rfl

/-- How many bytes follow the first byte of a scalar value. -/
def furtherBytes (n : Nat) : Nat :=
  if n ≤ 0x7F then 0 else if n ≤ 0x7FF then 1 else if n ≤ 0xFFFF then 2 else 3

/-- The first byte of a scalar value: its highest digits and the mark of the length. -/
def firstByte (n : Nat) : Nat :=
  if n ≤ 0x7F then n
  else if n ≤ 0x7FF then n / 64 + 0xC0
  else if n ≤ 0xFFFF then n / 64 ^ 2 + 0xE0
  else n / 64 ^ 3 + 0xF0

/-- The last digits of a number in the base 64, as bytes that follow the first. -/
def lastDigits : Nat → Nat → List UInt8
  | 0, _ => []
  | k + 1, n => .ofNat (n / 64 ^ k % 64 + 0x80) :: lastDigits k n

theorem firstByte_lt {n : Nat} (h : n < 0x110000) : firstByte n < 256 := by
  unfold firstByte
  split_ifs <;> omega

/-- Scalar values are below the end of the last plane. -/
theorem scalar_lt (c : Char) : c.toNat < 0x110000 := by
  rcases c.valid with hlow | ⟨-, hhigh⟩
  · exact Nat.lt_trans hlow (by decide)
  · exact hhigh

/-- A character is encoded as its first byte and its last digits. The highest digits fit into the
first byte, so that nothing of them is cut off. -/
theorem utf8EncodeChar_eq (c : Char) :
    String.utf8EncodeChar c =
      .ofNat (firstByte c.toNat) :: lastDigits (furtherBytes c.toNat) c.toNat := by
  have hc := scalar_lt c
  simp only [String.utf8EncodeChar, Char.toNat_val, firstByte, furtherBytes]
  split_ifs with h1 h2 h3
  · rfl
  · have hhigh : c.toNat / 64 % 32 = c.toNat / 64 := Nat.mod_eq_of_lt (by omega)
    simp [lastDigits, hhigh]
  · have hhigh : c.toNat / 4096 % 16 = c.toNat / 4096 := Nat.mod_eq_of_lt (by omega)
    simp [lastDigits, hhigh]
  · have hhigh : c.toNat / 262144 % 8 = c.toNat / 262144 := Nat.mod_eq_of_lt (by omega)
    simp [lastDigits, hhigh]

/-- The higher of two scalar values has the higher first byte, or they differ in the last digits
only. -/
theorem firstByte_lt_or_eq {m n : Nat} (h : m < n) :
    firstByte m < firstByte n ∨ firstByte m = firstByte n ∧ furtherBytes m = furtherBytes n ∧
      m / 64 ^ furtherBytes m = n / 64 ^ furtherBytes n := by
  unfold firstByte furtherBytes
  split_ifs <;> omega

/-- Numbers that differ in the last digits only are ordered by these. -/
theorem compareBytes_lastDigits {m n k : Nat} (h : m < n) (hhigh : m / 64 ^ k = n / 64 ^ k)
    (bytes bytes' : List UInt8) :
    compareBytes (lastDigits k m ++ bytes) (lastDigits k n ++ bytes') = .lt := by
  induction k with
  | zero => omega
  | succ k ih =>
    have hle : m / 64 ^ k ≤ n / 64 ^ k := Nat.div_le_div_right h.le
    rw [Nat.pow_succ, ← Nat.div_div_eq_div_mul, ← Nat.div_div_eq_div_mul] at hhigh
    rw [lastDigits, lastDigits, List.cons_append, List.cons_append,
      compareBytes_cons_eq_lt (by omega) (by omega)]
    by_cases hdigit : m / 64 ^ k = n / 64 ^ k
    · exact .inr ⟨by rw [hdigit], ih hdigit⟩
    · exact .inl (by omega)

/-- The lower of two characters has the lower bytes, whatever follows them. -/
theorem compareBytes_utf8EncodeChar {c d : Char} (h : c.toNat < d.toNat)
    (bytes bytes' : List UInt8) :
    compareBytes (String.utf8EncodeChar c ++ bytes) (String.utf8EncodeChar d ++ bytes') = .lt := by
  rw [utf8EncodeChar_eq, utf8EncodeChar_eq, List.cons_append, List.cons_append,
    compareBytes_cons_eq_lt (firstByte_lt (scalar_lt c)) (firstByte_lt (scalar_lt d))]
  rcases firstByte_lt_or_eq h with hfirst | ⟨hfirst, hlength, hhigh⟩
  · exact .inl hfirst
  · rw [hlength] at hhigh ⊢
    exact .inr ⟨hfirst, compareBytes_lastDigits h hhigh bytes bytes'⟩

/-! ## Bytes of texts -/

/-- A text that comes before another in the dictionary has the lower bytes. -/
theorem Precedes.byteOrder_eq {s t : String} (h : Precedes s.toList t.toList) :
    byteOrder s t = .lt := by
  rw [byteOrder, utf8, utf8]
  generalize s.toList = chars at h ⊢
  generalize t.toList = chars' at h ⊢
  cases h with
  | @beginning common rest hrest =>
    obtain ⟨c, others, rfl⟩ := List.exists_cons_of_ne_nil hrest
    have hbytes := compareBytes_append_left (chars.flatMap String.utf8EncodeChar) []
      ((c :: others).flatMap String.utf8EncodeChar)
    rw [List.append_nil] at hbytes
    rw [List.flatMap_append, hbytes, List.flatMap_cons, utf8EncodeChar_eq]
    rfl
  | difference common hlower rest rest' =>
    rw [List.flatMap_append, List.flatMap_append, compareBytes_append_left, List.flatMap_cons,
      List.flatMap_cons]
    exact compareBytes_utf8EncodeChar hlower _ _

/-- The order of the bytes is the order of the dictionary. -/
theorem byteOrder_eq_lt_iff {s t : String} :
    byteOrder s t = .lt ↔ Precedes s.toList t.toList := by
  refine ⟨fun h => ?_, Precedes.byteOrder_eq⟩
  rcases precedes_trichotomy s.toList t.toList with hst | hsame | hts
  · exact hst
  · have heq : byteOrder s t = .eq :=
      Std.LawfulEqCmp.compare_eq_iff_eq.mpr (String.toList_inj.mp hsame)
    rw [heq] at h
    cases h
  · have hswap : byteOrder s t = (byteOrder t s).swap := Std.OrientedCmp.eq_swap
    rw [hswap, hts.byteOrder_eq] at h
    cases h

theorem byteOrder_eq_gt_iff {s t : String} :
    byteOrder s t = .gt ↔ Precedes t.toList s.toList := by
  rw [Std.OrientedCmp.gt_iff_lt, byteOrder_eq_lt_iff]

end Text

/-- The relation of two texts that an operator stands for, in the order of the dictionary. -/
def ComparisonOperator.HoldsOfTexts : ComparisonOperator → String → String → Prop
  | .greater, s, t => Text.Precedes t.toList s.toList
  | .less, s, t => Text.Precedes s.toList t.toList
  | .equal, s, t => s = t
  | .atLeast, s, t => s = t ∨ Text.Precedes t.toList s.toList
  | .atMost, s, t => s = t ∨ Text.Precedes s.toList t.toList

theorem ComparisonOperator.holds_byteOrder (operator : ComparisonOperator) (s t : String) :
    operator.holds (Text.byteOrder s t) = true ↔ operator.HoldsOfTexts s t := by
  have hless := Text.byteOrder_eq_lt_iff (s := s) (t := t)
  have hgreater := Text.byteOrder_eq_gt_iff (s := s) (t := t)
  have hequal : Text.byteOrder s t = .eq ↔ s = t := Std.LawfulEqCmp.compare_eq_iff_eq
  cases operator with
  | greater => rw [holds, beq_iff_eq, hgreater, HoldsOfTexts]
  | less => rw [holds, beq_iff_eq, hless, HoldsOfTexts]
  | equal => rw [holds, beq_iff_eq, hequal, HoldsOfTexts]
  | atLeast =>
    rw [holds, HoldsOfTexts, ← hequal, ← hgreater]
    cases Text.byteOrder s t <;> decide
  | atMost =>
    rw [holds, HoldsOfTexts, ← hequal, ← hless]
    cases Text.byteOrder s t <;> decide

/-- Texts are compared by their bytes, which have the order of the dictionary, so that the verdict
on a text and a text literal is that of the dictionary. -/
theorem texts_compared_by_scalars :
    (∀ s t : String,
      (Text.byteOrder s t = .lt ↔ Text.Precedes s.toList t.toList) ∧
      (Text.byteOrder s t = .eq ↔ s = t) ∧
      (Text.byteOrder s t = .gt ↔ Text.Precedes t.toList s.toList)) ∧
    ∀ (field s t : String) (operator : ComparisonOperator), field ≠ "" →
      ∃ matched, Condition.verdict field (some (.string s)) operator (.string t) = .ok matched ∧
        (matched = true ↔ operator.HoldsOfTexts s t) := by
  constructor
  · intro s t
    exact ⟨Text.byteOrder_eq_lt_iff, Std.LawfulEqCmp.compare_eq_iff_eq, Text.byteOrder_eq_gt_iff⟩
  · intro field s t operator hfield
    have hfinite : (Literal.string t).IsFinite := trivial
    exact ⟨_, (Condition.Comparable.string s t).verdict_eq hfield hfinite rfl operator,
      operator.holds_byteOrder s t⟩

/-- A character of three bytes is lower than one of four, though the code units of the latter are
lower in UTF-16; and a beginning of a text is lower than the text. -/
theorem texts_compared_by_scalars_lengths :
    "f" ≠ "" ∧
      Condition.verdict "f" (some (.string "a｡b")) .less (.string "a𐀀") = .ok true ∧
      Condition.verdict "f" (some (.string "aé")) .atMost (.string "aé｡") = .ok true := by
  have hfield : "f" ≠ "" := by decide
  obtain ⟨less, hless, hholds⟩ := texts_compared_by_scalars.2 "f" "a｡b" "a𐀀" .less hfield
  obtain ⟨most, hmost, hholds'⟩ := texts_compared_by_scalars.2 "f" "aé" "aé｡" .atMost hfield
  have hdifference : Text.Precedes "a｡b".toList "a𐀀".toList :=
    .difference ['a'] (c := '｡') (d := '𐀀') (by decide) ['b'] []
  have hbeginning : Text.Precedes "aé".toList "aé｡".toList :=
    .beginning ['a', 'é'] (List.cons_ne_nil '｡' [])
  rw [hholds.mpr hdifference] at hless
  rw [hholds'.mpr (.inr hbeginning)] at hmost
  exact ⟨hfield, hless, hmost⟩

end PostfixRules
