import Mathlib.Data.List.Induction
import Mathlib.Tactic.Ring
import PostfixRules.Text.Blank
import PostfixRules.Text.Integer

/-!
# Rows of digits

The decimal digits of a number are a row of digits that is never empty and denotes the number.
Zeros in front of a row do not change what it denotes, zeros behind it multiply by powers of ten,
and in general two rows one after the other denote a sum.
-/

namespace PostfixRules.Text

theorem isDigit_digitChar : ∀ n, n < 10 → (digitChar n).isDigit = true := by decide

theorem digitValue_digitChar : ∀ n, n < 10 → digitValue (digitChar n) = n := by decide

@[simp] theorem natOfDigits_nil : natOfDigits [] = 0 := rfl

/-- A digit behind a row multiplies by ten and adds its value. -/
theorem natOfDigits_concat (digits : List Char) (c : Char) :
    natOfDigits (digits ++ [c]) = 10 * natOfDigits digits + digitValue c := by
  simp only [natOfDigits, List.foldl_append, List.foldl_cons, List.foldl_nil]

/-- Two rows one after the other. -/
theorem natOfDigits_append (left right : List Char) :
    natOfDigits (left ++ right) = natOfDigits left * 10 ^ right.length + natOfDigits right := by
  induction right using List.reverseRecOn with
  | nil => simp
  | append_singleton right c ih =>
    rw [← List.append_assoc, natOfDigits_concat, ih, natOfDigits_concat, List.length_append,
      List.length_singleton]
    ring

/-- A row of zeros denotes zero. -/
theorem natOfDigits_zeros (n : Nat) : natOfDigits (List.replicate n '0') = 0 := by
  induction n with
  | zero => rfl
  | succ n ih => rw [List.replicate_succ', natOfDigits_concat, ih]; rfl

/-- The decimal digits of a number denote it. -/
theorem natOfDigits_decimal (n : Nat) : natOfDigits (decimal n) = n := by
  fun_induction decimal n with
  | case1 n hn =>
    rw [← List.nil_append [digitChar n], natOfDigits_concat, digitValue_digitChar n hn,
      natOfDigits_nil, Nat.mul_zero, Nat.zero_add]
  | case2 n hn ih =>
    rw [natOfDigits_concat, ih, digitValue_digitChar _ (Nat.mod_lt n (by decide))]
    omega

theorem isDigit_of_mem_decimal (n : Nat) : ∀ c ∈ decimal n, c.isDigit = true := by
  fun_induction decimal n with
  | case1 n hn => simpa using isDigit_digitChar n hn
  | case2 n hn ih =>
    intro c hc
    rcases List.mem_append.mp hc with hc | hc
    · exact ih c hc
    · rw [List.mem_singleton.mp hc]
      exact isDigit_digitChar _ (Nat.mod_lt n (by decide))

theorem decimal_ne_nil (n : Nat) : decimal n ≠ [] := by
  fun_cases decimal n <;> simp

/-- A decimal row has a first digit and other digits. -/
theorem exists_decimal_cons (n : Nat) :
    ∃ first others, decimal n = first :: others ∧ first.isDigit = true ∧
      ∀ c ∈ others, c.isDigit = true := by
  have hd := isDigit_of_mem_decimal n
  obtain ⟨first, others, hdigits⟩ := List.exists_cons_of_ne_nil (decimal_ne_nil n)
  rw [hdigits] at hd
  exact ⟨first, others, hdigits, hd first List.mem_cons_self,
    fun c hc => hd c (List.mem_cons_of_mem _ hc)⟩

theorem isDigit_of_mem_zeros {n : Nat} : ∀ c ∈ List.replicate n '0', c.isDigit = true := by
  intro c hc
  rw [List.eq_of_mem_replicate hc]
  rfl

/-- A row of digits that is not empty is read as what it denotes. -/
theorem digits?_eq {chars : List Char} (hne : chars ≠ [])
    (hd : ∀ c ∈ chars, c.isDigit = true) : digits? chars = some (natOfDigits chars) := by
  have ha : chars.all Char.isDigit = true := List.all_eq_true.mpr hd
  have hn : chars.isEmpty = false := by simpa using hne
  simp only [digits?, ha, hn, Bool.not_true, Bool.or_self, Bool.false_eq_true, if_false]

theorem digits?_decimal (n : Nat) : digits? (decimal n) = some n := by
  rw [digits?_eq (decimal_ne_nil n) (isDigit_of_mem_decimal n), natOfDigits_decimal]

/-- Digits are not any of the other characters that occur in numbers and words. -/
theorem not_isDigit {c d : Char} (hc : c.isDigit = true) (hd : d.isDigit = false) : c ≠ d := by
  rintro rfl
  rw [hc] at hd
  cases hd

/-- A row of digits is read exactly if it is not empty and nothing else is in it. -/
theorem digits?_eq_some_iff {chars : List Char} {n : Nat} :
    digits? chars = some n ↔
      chars ≠ [] ∧ (∀ c ∈ chars, c.isDigit = true) ∧ natOfDigits chars = n := by
  constructor
  · intro h
    rw [digits?] at h
    split_ifs at h with hbad
    simp only [Bool.or_eq_true, List.isEmpty_iff, Bool.not_eq_true', not_or,
      Bool.not_eq_false] at hbad
    exact ⟨hbad.1, List.all_eq_true.mp hbad.2, Option.some.inj h⟩
  · rintro ⟨hne, hd, rfl⟩
    exact digits?_eq hne hd

/-- An unsigned whole number is a row of digits, perhaps after a plus sign, that denotes a number
below the bound. -/
theorem unsigned?_eq_some_iff {bound n : Nat} {chars : List Char} :
    unsigned? bound chars = some n ↔ n < bound ∧ ∃ digits,
      (chars = digits ∨ chars = '+' :: digits) ∧ digits ≠ [] ∧
        (∀ c ∈ digits, c.isDigit = true) ∧ natOfDigits digits = n := by
  have hbelow {digits : List Char} : (digits? digits).bind (below bound) = some n ↔
      n < bound ∧ digits? digits = some n := by
    simp only [Option.bind_eq_some_iff, below, Option.ite_none_right_eq_some, Option.some.injEq]
    constructor
    · rintro ⟨m, hm, hlt, rfl⟩
      exact ⟨hlt, hm⟩
    · rintro ⟨hlt, hm⟩
      exact ⟨n, hm, hlt, rfl⟩
  fun_cases unsigned? bound chars with
  | case1 rest =>
    rw [hbelow, digits?_eq_some_iff]
    refine and_congr_right fun _ => ⟨fun h => ⟨rest, .inr rfl, h⟩, ?_⟩
    rintro ⟨digits, rfl | hrest, hne, hd, hn⟩
    · exact absurd rfl (not_isDigit (hd '+' List.mem_cons_self) (by decide))
    · cases hrest
      exact ⟨hne, hd, hn⟩
  | case2 chars hplus =>
    rw [hbelow, digits?_eq_some_iff]
    refine and_congr_right fun _ => ⟨fun h => ⟨chars, .inl rfl, h⟩, ?_⟩
    rintro ⟨digits, rfl | hrest, h⟩
    · exact h
    · exact absurd hrest (hplus digits)

/-- Digits are not blanks. -/
theorem isBlank_of_isDigit {c : Char} (h : c.isDigit = true) : isBlank c = false := by
  have hlow : 0x30 ≤ c.toNat ∧ c.toNat ≤ 0x39 := by
    simpa [Char.isDigit, UInt32.le_iff_toNat_le] using h
  simp only [isBlank, Bool.or_eq_false_iff, Bool.and_eq_false_iff, decide_eq_false_iff_not,
    beq_eq_false_iff_ne]
  omega

/-- The digits at the front of a text are cut off where something else begins. -/
theorem takeWhile_digits {digits rest : List Char} (hd : ∀ c ∈ digits, c.isDigit = true)
    (hr : rest.head?.all (fun c => !c.isDigit) = true) :
    (digits ++ rest).takeWhile Char.isDigit = digits := by
  rw [List.takeWhile_append_of_pos hd]
  cases rest with
  | nil => simp
  | cons c rest =>
    have hc : c.isDigit = false := by simpa using hr
    rw [List.takeWhile_cons_of_neg (by simp [hc]), List.append_nil]

theorem dropWhile_digits {digits rest : List Char} (hd : ∀ c ∈ digits, c.isDigit = true)
    (hr : rest.head?.all (fun c => !c.isDigit) = true) :
    (digits ++ rest).dropWhile Char.isDigit = rest := by
  have hsplit := @List.takeWhile_append_dropWhile _ Char.isDigit (digits ++ rest)
  rw [takeWhile_digits hd hr] at hsplit
  exact List.append_cancel_left hsplit

end PostfixRules.Text
