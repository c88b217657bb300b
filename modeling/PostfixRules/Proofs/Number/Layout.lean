import PostfixRules.Number.Style
import PostfixRules.Proofs.Number.Shortest

/-!
# Number texts read back

A layout writes a row of digits, perhaps with a point in it and a power of ten behind it. Reading it
gives a decimal of the same value, though not always with the same digits, so that in both styles
the text of a finite double is read as that double, with the sign of a zero.
-/

namespace PostfixRules

namespace Decimal

/-- Before a digit there is no sign. -/
theorem splitSign_of_isDigit {c : Char} (hc : c.isDigit = true) (rest : List Char) :
    splitSign (c :: rest) = (false, c :: rest) := by
  have hminus : c ≠ '-' := Text.not_isDigit hc rfl
  have hplus : c ≠ '+' := Text.not_isDigit hc rfl
  unfold splitSign
  split <;> simp_all

/-- What may follow the digits of a number here: nothing, or a power of ten. -/
inductive ExponentText : List Char → Int → Prop where
  | none : ExponentText [] 0
  | power (n : Int) :
      ExponentText ('e' :: (if n < 0 then '-' else '+') :: Text.decimal n.natAbs) n

theorem ExponentText.read {chars : List Char} {n : Int} (h : ExponentText chars n) :
    exponent? chars = some n := by
  cases h with
  | none => rfl
  | power n =>
    by_cases hn : n < 0
    · have hs : -(n.natAbs : Int) = n := by omega
      rw [if_pos hn, exponent?, if_pos (.inl rfl)]
      simp only [splitSign, Text.digits?_decimal, if_true]
      exact congrArg some hs
    · have hs : (n.natAbs : Int) = n := by omega
      rw [if_neg hn, exponent?, if_pos (.inl rfl)]
      simp only [splitSign, Text.digits?_decimal, Bool.false_eq_true, if_false]
      exact congrArg some hs

theorem ExponentText.head {chars : List Char} {n : Int} (h : ExponentText chars n) :
    chars.head?.all (fun c => !c.isDigit) = true := by
  cases h <;> rfl

theorem splitFraction_of_exponent {chars : List Char} {n : Int} (h : ExponentText chars n) :
    splitFraction chars = ([], chars) := by
  cases h <;> rfl

/-- A whole number with what follows it. -/
theorem ofUnsigned?_whole (negative : Bool) {whole rest : List Char} {n : Int}
    (hne : whole ≠ []) (hw : ∀ c ∈ whole, c.isDigit = true) (hr : ExponentText rest n) :
    ofUnsigned? negative (whole ++ rest) = some ⟨negative, Text.natOfDigits whole, n⟩ := by
  have he : whole.isEmpty = false := by simpa using hne
  simp only [ofUnsigned?, Text.takeWhile_digits hw hr.head, Text.dropWhile_digits hw hr.head,
    splitFraction_of_exponent hr, he, hr.read, Bool.false_and, Bool.false_eq_true, if_false,
    Option.map_some, List.append_nil, List.length_nil, Nat.cast_zero, Int.sub_zero]

/-- A number with digits on both sides of a point and what follows it. -/
theorem ofUnsigned?_point (negative : Bool) {whole fraction rest : List Char} {n : Int}
    (hne : whole ≠ []) (hw : ∀ c ∈ whole, c.isDigit = true)
    (hf : ∀ c ∈ fraction, c.isDigit = true) (hr : ExponentText rest n) :
    ofUnsigned? negative (whole ++ '.' :: (fraction ++ rest)) =
      some ⟨negative, Text.natOfDigits (whole ++ fraction), n - (fraction.length : Int)⟩ := by
  have he : whole.isEmpty = false := by simpa using hne
  have hp : ('.' :: (fraction ++ rest)).head?.all (fun c => !c.isDigit) = true := rfl
  simp only [ofUnsigned?, Text.takeWhile_digits hw hp, Text.dropWhile_digits hw hp,
    splitFraction, Text.takeWhile_digits hf hr.head, Text.dropWhile_digits hf hr.head, he, hr.read,
    Bool.false_and, Bool.false_eq_true, if_false, Option.map_some]

/-- A number with digits on both sides of a point and nothing behind it. -/
theorem ofUnsigned?_fraction (negative : Bool) {whole fraction : List Char} (hne : whole ≠ [])
    (hw : ∀ c ∈ whole, c.isDigit = true) (hf : ∀ c ∈ fraction, c.isDigit = true) :
    ofUnsigned? negative (whole ++ '.' :: fraction) =
      some ⟨negative, Text.natOfDigits (whole ++ fraction), -(fraction.length : Int)⟩ := by
  simpa only [List.append_nil, Int.zero_sub] using
    ofUnsigned?_point negative hne hw hf ExponentText.none

end Decimal

namespace NumberStyle

/-- The whole marks in use: none at all, or a point and a zero. -/
def HasPlainMark (style : NumberStyle) : Prop :=
  style.wholeMark = [] ∨ style.wholeMark = ['.', '0']

theorem hasPlainMark_plain : plain.HasPlainMark := .inl rfl

theorem hasPlainMark_json : json.HasPlainMark := .inr rfl

/-- The layout of a decimal without its sign. -/
def bodyText (style : NumberStyle) (d : Decimal) : List Char :=
  let digits := Text.decimal d.digits
  let power := d.exponent + (digits.length : Int) - 1
  if style.positional power then positionalText style.wholeMark digits d.exponent
  else scientificText digits power

theorem layout_eq (style : NumberStyle) (d : Decimal) :
    style.layout d = if d.negative then '-' :: style.bodyText d else style.bodyText d := rfl

open Decimal Text

theorem isDigit_of_mem_append {left right : List Char}
    (hl : ∀ c ∈ left, c.isDigit = true) (hr : ∀ c ∈ right, c.isDigit = true) :
    ∀ c ∈ left ++ right, c.isDigit = true := by
  intro c hc
  exact (List.mem_append.mp hc).elim (hl c) (hr c)

/-- A positional text reads as a decimal of the same value. -/
theorem read_positionalText {mark : List Char} (hmark : mark = [] ∨ mark = ['.', '0'])
    (d : Decimal) :
    ∃ d', ofUnsigned? d.negative (positionalText mark (decimal d.digits) d.exponent) = some d' ∧
      d'.toDouble = d.toDouble := by
  obtain ⟨negative, n, exponent⟩ := d
  have hd := isDigit_of_mem_decimal n
  have hne := decimal_ne_nil n
  have hzero : ∀ c ∈ ['0'], c.isDigit = true := List.forall_mem_singleton.mpr rfl
  dsimp only
  cases exponent with
  | ofNat e =>
    have hdz := isDigit_of_mem_append hd (isDigit_of_mem_zeros (n := e))
    have hnez : decimal n ++ List.replicate e '0' ≠ [] := by simp [hne]
    have hvalue : natOfDigits (decimal n ++ List.replicate e '0') = n * 10 ^ e := by
      rw [natOfDigits_append, natOfDigits_decimal, natOfDigits_zeros, List.length_replicate,
        Nat.add_zero]
    rcases hmark with rfl | rfl
    · refine ⟨_, ofUnsigned?_whole negative hnez hdz .none, ?_⟩
      rw [hvalue, toDouble_mul_pow, Int.zero_add]
      rfl
    · refine ⟨_, ofUnsigned?_fraction negative hnez hdz hzero, ?_⟩
      rw [natOfDigits_append, hvalue, show natOfDigits ['0'] = 0 from rfl, Nat.add_zero,
        toDouble_mul_pow, toDouble_mul_pow]
      congr 2
      simp
  | negSucc k =>
    unfold positionalText
    dsimp only
    split_ifs with hlong
    · have htake : (decimal n).take ((decimal n).length - (k + 1)) ≠ [] := by
        rw [Ne, List.take_eq_nil_iff]
        simp only [hne, or_false]
        omega
      refine ⟨_, ofUnsigned?_fraction negative htake
        (fun c hc => hd c (List.mem_of_mem_take hc))
        (fun c hc => hd c (List.mem_of_mem_drop hc)), ?_⟩
      rw [List.take_append_drop, natOfDigits_decimal, List.length_drop]
      congr 2
      omega
    · refine ⟨_, ofUnsigned?_fraction negative (List.cons_ne_nil '0' []) hzero
        (isDigit_of_mem_append isDigit_of_mem_zeros hd), ?_⟩
      have hvalue : natOfDigits (['0'] ++ (List.replicate (k + 1 - (decimal n).length) '0' ++
          decimal n)) = n := by
        rw [natOfDigits_append, natOfDigits_append, natOfDigits_zeros, natOfDigits_decimal,
          show natOfDigits ['0'] = 0 from rfl]
        omega
      rw [hvalue, List.length_append, List.length_replicate]
      congr 2
      omega

/-- A text with a power of ten reads as the very decimal. -/
theorem read_scientificText (d : Decimal) :
    ofUnsigned? d.negative (scientificText (decimal d.digits)
      (d.exponent + ((decimal d.digits).length : Int) - 1)) = some d := by
  obtain ⟨negative, n, exponent⟩ := d
  have hn := natOfDigits_decimal n
  obtain ⟨first, others, hdigits, hfirst, hothers⟩ := exists_decimal_cons n
  have hwhole : ∀ c ∈ [first], c.isDigit = true := List.forall_mem_singleton.mpr hfirst
  dsimp only
  rw [hdigits] at hn ⊢
  cases others with
  | nil =>
    have he : exponent + (([first].length : Nat) : Int) - 1 = exponent := by simp
    rw [he]
    refine (ofUnsigned?_whole negative (by simp) hwhole (.power exponent)).trans ?_
    rw [hn]
  | cons second others =>
    refine (ofUnsigned?_point negative (by simp) hwhole hothers (.power _)).trans ?_
    rw [List.singleton_append, hn]
    congr 2
    simp
    omega

/-- A layout reads as a decimal of the same value and sign. -/
theorem read_bodyText {style : NumberStyle} (hmark : style.HasPlainMark) (d : Decimal) :
    ∃ d', ofUnsigned? d.negative (style.bodyText d) = some d' ∧ d'.toDouble = d.toDouble := by
  simp only [bodyText]
  split_ifs
  · exact read_positionalText hmark d
  · exact ⟨d, read_scientificText d, rfl⟩

/-- A layout begins with a digit, after its sign. -/
theorem exists_bodyText_cons (style : NumberStyle) (d : Decimal) :
    ∃ c rest, style.bodyText d = c :: rest ∧ c.isDigit = true := by
  obtain ⟨first, others, hdigits, hfirst, -⟩ := exists_decimal_cons d.digits
  simp only [bodyText, hdigits]
  split_ifs
  · cases d.exponent with
    | ofNat e => exact ⟨first, _, rfl, hfirst⟩
    | negSucc k =>
      simp only [positionalText]
      split_ifs with hlong
      · obtain ⟨n, hn⟩ : ∃ n, (first :: others).length - (k + 1) = n + 1 :=
          Nat.exists_eq_succ_of_ne_zero (by omega)
        rw [hn, List.take_succ_cons]
        exact ⟨first, _, rfl, hfirst⟩
      · exact ⟨'0', _, rfl, rfl⟩
  · exact ⟨first, _, rfl, hfirst⟩

theorem splitSign_layout (style : NumberStyle) (d : Decimal) :
    splitSign (style.layout d) = (d.negative, style.bodyText d) := by
  obtain ⟨c, rest, hb, hc⟩ := style.exists_bodyText_cons d
  rw [layout_eq, hb]
  cases d.negative with
  | true => rfl
  | false => exact splitSign_of_isDigit hc rest

/-- Plain text holds digits, points and minus signs only. -/
theorem mem_layout_plain {d : Decimal} {c : Char} (h : c ∈ plain.layout d) :
    c.isDigit = true ∨ c = '.' ∨ c = '-' := by
  have hbody : ∀ c ∈ plain.bodyText d, c.isDigit = true ∨ c = '.' := by
    intro c hc
    have hd := isDigit_of_mem_decimal d.digits
    change c ∈ positionalText [] (decimal d.digits) d.exponent at hc
    cases he : d.exponent with
    | ofNat e =>
      simp only [he, positionalText, List.append_nil] at hc
      exact .inl (isDigit_of_mem_append hd isDigit_of_mem_zeros c hc)
    | negSucc k =>
      simp only [he, positionalText] at hc
      split_ifs at hc
      · rcases List.mem_append.mp hc with hc | hc
        · exact .inl (hd c (List.mem_of_mem_take hc))
        · rcases List.mem_cons.mp hc with rfl | hc
          · exact .inr rfl
          · exact .inl (hd c (List.mem_of_mem_drop hc))
      · rcases List.mem_cons.mp hc with rfl | hc
        · exact .inl rfl
        · rcases List.mem_cons.mp hc with rfl | hc
          · exact .inr rfl
          · exact .inl (isDigit_of_mem_append isDigit_of_mem_zeros hd c hc)
  rw [layout_eq] at h
  split_ifs at h
  · rcases List.mem_cons.mp h with rfl | h
    · exact .inr (.inr rfl)
    · exact (hbody c h).imp_right .inl
  · exact (hbody c h).imp_right .inl

end NumberStyle

/-! ## Texts of doubles -/

/-- The text of a finite double reads as a decimal that names the double. -/
theorem Finite.read_text {style : NumberStyle} (hmark : style.HasPlainMark) (x : Finite) :
    ∃ d, Decimal.read? (x.text style) = some d ∧ d.toDouble = .finite x := by
  obtain ⟨hnegative, hdouble⟩ := shortest_spec style.tie x
  obtain ⟨d, hread, hd⟩ := NumberStyle.read_bodyText hmark (x.shortest style.tie)
  refine ⟨d, ?_, hd.trans hdouble⟩
  rw [Decimal.read?, text, NumberStyle.splitSign_layout]
  exact hread

private theorem toLower_of_isDigit {c : Char} (h : c.isDigit = true) : c.toLower = c := by
  simp only [Char.isDigit, Bool.and_eq_true, decide_eq_true_eq] at h
  unfold Char.toLower
  exact dif_neg fun hupper => absurd (UInt32.le_trans hupper.1 h.2) (by decide)

/-- A number that begins with a digit, after its sign, is read as a decimal. -/
theorem Double.read?_of_isDigit {chars rest : List Char} {c : Char} {negative : Bool}
    (hsign : Decimal.splitSign chars = (negative, c :: rest)) (hc : c.isDigit = true) :
    Double.read? chars = (Decimal.read? chars).map Decimal.toDouble := by
  have hword (word : String) (first : Char) (others : List Char)
      (hw : word.toList = first :: others) (hf : first.isDigit = false) :
      String.ofList ((c :: rest).map Char.toLower) ≠ word := by
    intro he
    have hl := congrArg String.toList he
    rw [String.toList_ofList, List.map_cons, toLower_of_isDigit hc, hw] at hl
    exact Text.not_isDigit hc hf (List.cons.inj hl).1
  simp only [Double.read?, Decimal.read?, hsign, hword "inf" 'i' _ rfl rfl,
    hword "infinity" 'i' _ rfl rfl, hword "nan" 'n' _ rfl rfl, or_self, if_false]

/-- The text of a finite double is read as that double. -/
theorem Double.read_text {style : NumberStyle} (hmark : style.HasPlainMark) (x : Finite) :
    Double.read? (x.text style) = some (.finite x) := by
  obtain ⟨d, hread, hd⟩ := x.read_text hmark
  obtain ⟨c, rest, hbody, hc⟩ := style.exists_bodyText_cons (x.shortest style.tie)
  have hsign : Decimal.splitSign (x.text style) = (_, c :: rest) :=
    (style.splitSign_layout (x.shortest style.tie)).trans (by rw [hbody])
  rw [read?_of_isDigit hsign hc, hread, Option.map_some, hd]

end PostfixRules
