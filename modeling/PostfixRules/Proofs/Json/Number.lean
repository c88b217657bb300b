import PostfixRules.Json.Writer
import PostfixRules.Json.Token
import PostfixRules.Proofs.Number.Integer

/-!
# Numbers in documents

A number is written in the number grammar of documents: no leading zero, a digit on both sides of a
point, and a complete power of ten. The phases of the scanner follow the parts of the text to a
phase in which a number may end, and the text denotes the number it was written for.
-/

namespace PostfixRules

namespace Text

/-- The first digit is not a zero, unless it is the only one. -/
def NoLeadingZero (digits : List Char) : Prop :=
  digits = ['0'] ∨ digits.head? ≠ some '0'

theorem head?_decimal_ne_zero {n : Nat} (hn : n ≠ 0) : (decimal n).head? ≠ some '0' := by
  fun_induction decimal n with
  | case1 n hlt =>
    have hdigit : ∀ n, n < 10 → n ≠ 0 → digitChar n ≠ '0' := by decide
    simpa using hdigit n hlt hn
  | case2 n hlt ih =>
    have hne := decimal_ne_nil (n / 10)
    rw [List.head?_append_of_ne_nil _ hne]
    exact ih (by omega)

theorem noLeadingZero_decimal (n : Nat) : NoLeadingZero (decimal n) := by
  by_cases hn : n = 0
  · subst hn
    exact .inl (by rw [decimal]; rfl)
  · exact .inr (head?_decimal_ne_zero hn)

end Text

namespace Json.NumberPhase

open Text

/-- Digits do not change a phase in which digits follow digits. -/
theorem foldlM_digits {phase : NumberPhase}
    (hphase : phase = .integer ∨ phase = .fraction ∨ phase = .power)
    {digits : List Char} (hd : ∀ c ∈ digits, c.isDigit = true) :
    digits.foldlM next? phase = some phase := by
  induction digits with
  | nil => rfl
  | cons c rest ih =>
    have hc : phase.next? c = some phase := by
      rcases hphase with rfl | rfl | rfl <;> exact if_pos (hd c List.mem_cons_self)
    rw [List.foldlM_cons, hc]
    exact ih fun c hc => hd c (List.mem_cons_of_mem _ hc)

/-- The phases in which a whole number may end. -/
def IsWhole (phase : NumberPhase) : Prop :=
  phase = .zero ∨ phase = .integer

theorem next?_sign {c : Char} (hc : c.isDigit = true) (hz : c ≠ '0') :
    next? .sign c = some .integer := by
  rw [next?, if_neg hz, if_pos hc]

/-- A row of digits without a leading zero is a whole number. -/
theorem foldlM_whole {digits : List Char} (hne : digits ≠ [])
    (hd : ∀ c ∈ digits, c.isDigit = true) (hlead : NoLeadingZero digits) :
    ∃ phase, IsWhole phase ∧ digits.foldlM next? .sign = some phase := by
  rcases hlead with rfl | hlead
  · exact ⟨.zero, .inl rfl, rfl⟩
  · cases digits with
    | nil => exact absurd rfl hne
    | cons c rest =>
      have hz : c ≠ '0' := by simpa using hlead
      refine ⟨.integer, .inr rfl, ?_⟩
      rw [List.foldlM_cons, next?_sign (hd c List.mem_cons_self) hz]
      exact foldlM_digits (.inl rfl) fun c hc => hd c (List.mem_cons_of_mem _ hc)

/-- A point and digits behind a whole number make a fraction. -/
theorem foldlM_fraction {phase : NumberPhase} (hphase : IsWhole phase) {digits : List Char}
    (hne : digits ≠ []) (hd : ∀ c ∈ digits, c.isDigit = true) :
    ('.' :: digits).foldlM next? phase = some .fraction := by
  have hpoint : phase.next? '.' = some .point := by
    rcases hphase with rfl | rfl <;> rfl
  cases digits with
  | nil => exact absurd rfl hne
  | cons c rest =>
    have hc : next? .point c = some .fraction := if_pos (hd c List.mem_cons_self)
    rw [List.foldlM_cons, hpoint]
    change (c :: rest).foldlM next? .point = _
    rw [List.foldlM_cons, hc]
    exact foldlM_digits (.inr (.inl rfl)) fun c hc => hd c (List.mem_cons_of_mem _ hc)

/-- A power of ten may follow a whole number or a fraction. -/
theorem foldlM_power {phase : NumberPhase} (hphase : IsWhole phase ∨ phase = .fraction)
    {sign : Char} (hsign : sign = '+' ∨ sign = '-') (n : Nat) :
    ('e' :: sign :: decimal n).foldlM next? phase = some .power := by
  have hmark : phase.next? 'e' = some .mark := by
    rcases hphase with (rfl | rfl) | rfl <;> rfl
  have hmarkSign : next? .mark sign = some .markSign := by
    rcases hsign with rfl | rfl <;> rfl
  obtain ⟨first, others, hdigits, hfirst, hothers⟩ := exists_decimal_cons n
  have hpower : next? .markSign first = some .power := if_pos hfirst
  rw [List.foldlM_cons, hmark]
  change (sign :: decimal n).foldlM next? .mark = _
  rw [List.foldlM_cons, hmarkSign, hdigits]
  change (first :: others).foldlM next? .markSign = _
  rw [List.foldlM_cons, hpower]
  exact foldlM_digits (.inr (.inr rfl)) hothers

theorem foldlM_append_of_eq {chars rest : List Char} {phase next : NumberPhase}
    (h : chars.foldlM next? phase = some next) :
    (chars ++ rest).foldlM next? phase = rest.foldlM next? next := by
  rw [List.foldlM_append, h]
  rfl

/-- Digits, a point and digits are a complete number. -/
theorem foldlM_point {whole digits : List Char} (hne : whole ≠ [])
    (hd : ∀ c ∈ whole, c.isDigit = true) (hlead : NoLeadingZero whole) (hne' : digits ≠ [])
    (hd' : ∀ c ∈ digits, c.isDigit = true) :
    (whole ++ '.' :: digits).foldlM next? .sign = some .fraction := by
  obtain ⟨phase, hphase, hwhole⟩ := foldlM_whole hne hd hlead
  rw [foldlM_append_of_eq hwhole, foldlM_fraction hphase hne' hd']

end Json.NumberPhase

/-! ## Doubles -/

namespace NumberStyle

open Text Json.NumberPhase

/-- The first digits of a number without a leading zero have none either. -/
theorem noLeadingZero_of_append {left right : List Char} (hne : left ≠ [])
    (h : (left ++ right).head? ≠ some '0') : NoLeadingZero left := by
  rw [List.head?_append_of_ne_nil _ hne] at h
  exact .inr h

/-- A positional text with a fraction on whole numbers is a complete number. -/
theorem phase_positionalText {n : Nat} {exponent : Int} (hzero : n = 0 → exponent = 0) :
    (positionalText ['.', '0'] (decimal n) exponent).foldlM Json.NumberPhase.next? .sign =
      some .fraction := by
  have hd := isDigit_of_mem_decimal n
  have hne := decimal_ne_nil n
  cases exponent with
  | ofNat e =>
    have hlead : NoLeadingZero (decimal n ++ List.replicate e '0') := by
      by_cases hn : n = 0
      · obtain rfl : e = 0 := Int.ofNat.inj (hzero hn)
        rw [List.replicate_zero, List.append_nil]
        exact noLeadingZero_decimal n
      · rw [NoLeadingZero, List.head?_append_of_ne_nil _ hne]
        exact .inr (head?_decimal_ne_zero hn)
    exact foldlM_point (List.append_ne_nil_of_left_ne_nil hne _)
      (isDigit_of_mem_append hd isDigit_of_mem_zeros) hlead (List.cons_ne_nil '0' [])
      (List.forall_mem_singleton.mpr rfl)
  | negSucc k =>
    have hn : n ≠ 0 := fun hn => absurd (hzero hn) (Int.negSucc_ne_zero k)
    unfold positionalText
    dsimp only
    split_ifs with hlong
    · have hsplit := List.take_append_drop ((decimal n).length - (k + 1)) (decimal n)
      have htake : (decimal n).take ((decimal n).length - (k + 1)) ≠ [] := by
        rw [Ne, List.take_eq_nil_iff]
        simp only [hne, or_false]
        omega
      have hdrop : (decimal n).drop ((decimal n).length - (k + 1)) ≠ [] := by
        rw [Ne, List.drop_eq_nil_iff]
        omega
      exact foldlM_point htake (fun c hc => hd c (List.mem_of_mem_take hc))
        (noLeadingZero_of_append htake (hsplit.symm ▸ head?_decimal_ne_zero hn)) hdrop
        (fun c hc => hd c (List.mem_of_mem_drop hc))
    · exact foldlM_point (List.cons_ne_nil '0' []) (List.forall_mem_singleton.mpr rfl) (.inl rfl)
        (List.append_ne_nil_of_right_ne_nil _ hne) (isDigit_of_mem_append isDigit_of_mem_zeros hd)

/-- A text with a power of ten is a complete number. -/
theorem phase_scientificText (n : Nat) (power : Int) :
    (scientificText (decimal n) power).foldlM Json.NumberPhase.next? .sign = some .power := by
  have hsign : (if power < 0 then '-' else '+') = '+' ∨ (if power < 0 then '-' else '+') = '-' := by
    split_ifs
    · exact .inr rfl
    · exact .inl rfl
  obtain ⟨first, others, hdigits, hfirst, hothers⟩ := exists_decimal_cons n
  have hwhole : ∀ c ∈ [first], c.isDigit = true := List.forall_mem_singleton.mpr hfirst
  have hlead : NoLeadingZero [first] := by
    by_cases hz : first = '0'
    · exact .inl (by rw [hz])
    · exact .inr (by simpa using hz)
  unfold scientificText
  dsimp only
  rw [hdigits]
  cases others with
  | nil =>
    obtain ⟨phase, hphase, hrun⟩ := foldlM_whole (List.cons_ne_nil first []) hwhole hlead
    exact (foldlM_append_of_eq hrun).trans (foldlM_power (.inl hphase) hsign _)
  | cons second others =>
    have hpoint := foldlM_point (List.cons_ne_nil first []) hwhole hlead
      (List.cons_ne_nil second others) hothers
    exact (foldlM_append_of_eq hpoint).trans (foldlM_power (.inr rfl) hsign _)

/-- A decimal is laid out as a complete number, if zero has no exponent. -/
theorem phase_bodyText {d : Decimal} (hzero : d.digits = 0 → d.exponent = 0) :
    ∃ phase : Json.NumberPhase, phase.isComplete = true ∧
      (json.bodyText d).foldlM Json.NumberPhase.next? .sign = some phase := by
  unfold bodyText
  dsimp only
  split_ifs
  · exact ⟨.fraction, rfl, phase_positionalText hzero⟩
  · exact ⟨.power, rfl, phase_scientificText _ _⟩

/-- A decimal laid out for a document is not a mere row of digits. -/
theorem digits?_bodyText (d : Decimal) : digits? (json.bodyText d) = none := by
  have hmark : ∃ c ∈ json.bodyText d, c.isDigit = false := by
    unfold bodyText
    dsimp only
    split_ifs
    · refine ⟨'.', ?_, rfl⟩
      cases d.exponent with
      | ofNat e => exact List.mem_append_right _ List.mem_cons_self
      | negSucc k =>
        unfold positionalText
        dsimp only
        split_ifs
        · exact List.mem_append_right _ List.mem_cons_self
        · exact List.mem_cons_of_mem _ List.mem_cons_self
    · exact ⟨'e', List.mem_append_right _ List.mem_cons_self, rfl⟩
  obtain ⟨c, hc, hdigit⟩ := hmark
  have hall : (json.bodyText d).all Char.isDigit = false :=
    List.all_eq_false.mpr ⟨c, hc, by rw [hdigit]; decide⟩
  rw [digits?, hall, Bool.not_false, Bool.or_true, if_pos rfl]

end NumberStyle

/-! ## Numbers -/

namespace Json

/-- The text of a whole number denotes it. -/
theorem numberOf?_whole (n : Whole) : numberOf? (Text.signedDecimal n.value) = some (.whole n) := by
  have hvalue : (if decide (n.value < 0) = true then -(n.value.natAbs : Int)
      else (n.value.natAbs : Int)) = n.value := by
    split_ifs with h <;> simp only [decide_eq_true_eq] at h <;> omega
  have hnegative : (decide (n.value < 0) && n.value.natAbs == 0) = false := by
    simp only [Bool.and_eq_false_iff, decide_eq_false_iff_not, beq_eq_false_iff_ne]
    omega
  have hwhole : Whole.ofInt? n.value = some n := dif_pos ⟨n.lower, n.upper⟩
  simp only [numberOf?, Text.splitSign_signedDecimal, Text.digits?_decimal, hvalue, hwhole,
    hnegative, Bool.false_eq_true, if_false]

/-- The text of a double in a document denotes it. -/
theorem numberOf?_float (x : Finite) : numberOf? (x.text .json) = some (.float x) := by
  obtain ⟨d, hread, hd⟩ := x.read_text NumberStyle.hasPlainMark_json
  have hsign : Decimal.splitSign (x.text .json) = _ :=
    NumberStyle.json.splitSign_layout (x.shortest NumberStyle.json.tie)
  simp only [numberOf?, hsign, NumberStyle.digits?_bodyText, floatNumber?, hread, Option.bind_some,
    hd, Double.finite?, Option.map_some]

/-- The text of a number denotes it. -/
theorem numberOf?_text (n : Number) : numberOf? n.text = some n := by
  cases n with
  | whole n => exact numberOf?_whole n
  | float x => exact numberOf?_float x

/-- A number is written as a complete number, after its sign. -/
theorem phase_text (n : Number) :
    ∃ (negative : Bool) (body : List Char) (phase : NumberPhase),
      n.text = (if negative then '-' :: body else body) ∧ phase.isComplete = true ∧
        body.foldlM NumberPhase.next? .sign = some phase := by
  cases n with
  | whole n =>
    obtain ⟨phase, hphase, hrun⟩ := NumberPhase.foldlM_whole (Text.decimal_ne_nil n.value.natAbs)
      (Text.isDigit_of_mem_decimal _) (Text.noLeadingZero_decimal _)
    refine ⟨decide (n.value < 0), _, phase, ?_, ?_, hrun⟩
    · simp only [Number.text, Text.signedDecimal, decide_eq_true_eq]
    · rcases hphase with rfl | rfl <;> rfl
  | float x =>
    obtain ⟨phase, hphase, hrun⟩ := NumberStyle.phase_bodyText
      (@Finite.exponent_shortest_of_zero NumberStyle.json.tie x)
    exact ⟨_, _, phase, NumberStyle.json.layout_eq _, hphase, hrun⟩

end Json

end PostfixRules
