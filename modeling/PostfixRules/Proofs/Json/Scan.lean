import PostfixRules.Proofs.Json.Number

/-!
# The tokens of a written value

Scanning the text of a value gives the tokens of the value. A number is finished only by the
character after it, so behind a value the scanner is between tokens or in a number that may end
there; the comma or bracket that follows is taken in the same way in both cases.
-/

namespace PostfixRules.Json

mutual

/-- The tokens of a value. -/
def tokens : Json → List Token
  | .null => [.null]
  | .bool b => [.bool b]
  | .number n => [.number (some n)]
  | .string s => [.string (some s)]
  | .array [] => [.openBracket, .closeBracket]
  | .array (v :: vs) => .openBracket :: (v.tokens ++ elementTokens vs)
  | .object [] => [.openBrace, .closeBrace]
  | .object ((k, v) :: ms) =>
    .openBrace :: .string (some k) :: .colon :: (v.tokens ++ memberTokens ms)

/-- The tokens of the other elements of an array and of its end. -/
def elementTokens : List Json → List Token
  | [] => [.closeBracket]
  | v :: vs => .comma :: (v.tokens ++ elementTokens vs)

/-- The tokens of the other members of an object and of its end. -/
def memberTokens : List (String × Json) → List Token
  | [] => [.closeBrace]
  | (k, v) :: ms => .comma :: .string (some k) :: .colon :: (v.tokens ++ memberTokens ms)

end

namespace Scanner

/-! ## Texts -/

theorem hexValue?_hexDigit : ∀ n, n < 16 → Text.hexValue? (hexDigit n) = some n := by
  decide

/-- An escaped control character is the character. -/
theorem foldl_step_unit {c : Char} (hc : c.toNat < 0x20) (text : List Char)
    (reversed : List Token) :
    ['\\', 'u', '0', '0', hexDigit (c.toNat / 16), hexDigit (c.toNat % 16)].foldl step
      ⟨.quoted ⟨text, none, true⟩, reversed⟩ = ⟨.quoted ⟨c :: text, none, true⟩, reversed⟩ := by
  have hhigh := hexValue?_hexDigit (c.toNat / 16) (by omega)
  have hlow := hexValue?_hexDigit (c.toNat % 16) (by omega)
  have hunit : 16 * (c.toNat / 16) + c.toNat % 16 = c.toNat := Nat.div_add_mod _ _
  have hpush : Quoted.pushUnit ⟨text, none, true⟩ c.toNat = ⟨c :: text, none, true⟩ := by
    rw [Quoted.pushUnit, if_neg (by omega), if_neg (by omega), Char.ofNat_toNat]
    rfl
  change List.foldl step ⟨.codeUnit ⟨text, none, true⟩ 2 0, reversed⟩ [_, _] = _
  simp only [List.foldl_cons, List.foldl_nil, step, stepCodeUnit, hhigh, hlow, hunit, hpush,
    Nat.mul_zero, Nat.zero_add, Nat.reduceLeDiff, if_false, Nat.add_one_sub_one, Nat.le_refl,
    if_true]

/-- The escaped form of a character is the character. -/
theorem foldl_step_escapeChar (c : Char) (text : List Char) (reversed : List Token) :
    (escapeChar c).foldl step ⟨.quoted ⟨text, none, true⟩, reversed⟩ =
      ⟨.quoted ⟨c :: text, none, true⟩, reversed⟩ := by
  by_cases hquote : c = '"'
  · subst hquote; rfl
  by_cases hbackslash : c = '\\'
  · subst hbackslash; rfl
  by_cases hb : c = '\x08'
  · subst hb; rfl
  by_cases hf : c = '\x0c'
  · subst hf; rfl
  by_cases hn : c = '\n'
  · subst hn; rfl
  by_cases hr : c = '\r'
  · subst hr; rfl
  by_cases ht : c = '\t'
  · subst ht; rfl
  rw [escapeChar, if_neg hquote, if_neg hbackslash, if_neg hb, if_neg hf, if_neg hn, if_neg hr,
    if_neg ht]
  by_cases hcontrol : c.toNat < 0x20
  · rw [if_pos hcontrol]
    exact foldl_step_unit hcontrol text reversed
  · rw [if_neg hcontrol]
    change stepQuoted _ ⟨text, none, true⟩ c = _
    rw [stepQuoted, if_neg hquote, if_neg hbackslash, if_neg hcontrol]
    rfl

/-- The escaped characters of a text and its closing quote. -/
theorem foldl_step_quoted (chars text rest : List Char) (reversed : List Token) :
    (chars.foldr (fun c after => escapeChar c ++ after) ('"' :: rest)).foldl step
      ⟨.quoted ⟨text, none, true⟩, reversed⟩ =
        rest.foldl step ⟨.between, .string (some (String.ofList (text.reverse ++ chars))) ::
          reversed⟩ := by
  induction chars generalizing text with
  | nil =>
    rw [List.foldr_nil, List.append_nil]
    rfl
  | cons c chars ih =>
    rw [List.foldr_cons, List.foldl_append, foldl_step_escapeChar, ih, List.reverse_cons,
      List.append_assoc, List.singleton_append]

/-- A written text is scanned as the text. -/
theorem foldl_step_writeText (text : String) (rest : List Char) (reversed : List Token) :
    (writeText text rest).foldl step ⟨.between, reversed⟩ =
      rest.foldl step ⟨.between, .string (some text) :: reversed⟩ := by
  have h := foldl_step_quoted text.toList [] rest reversed
  rw [List.reverse_nil, List.nil_append, String.ofList_toList] at h
  exact h

/-! ## Numbers -/

/-- The characters of a number move its phase. -/
theorem foldl_step_number {chars : List Char} {phase next : NumberPhase}
    (h : chars.foldlM NumberPhase.next? phase = some next) (before : List Char)
    (reversed : List Token) :
    chars.foldl step ⟨.number phase before, reversed⟩ =
      ⟨.number next (chars.reverse ++ before), reversed⟩ := by
  induction chars generalizing phase before with
  | nil =>
    cases h
    rfl
  | cons c rest ih =>
    rw [List.foldlM_cons] at h
    obtain ⟨middle, hc, hrest⟩ := Option.bind_eq_some_iff.mp h
    have hstep : step ⟨.number phase before, reversed⟩ c =
        ⟨.number middle (c :: before), reversed⟩ := by
      change stepNumber _ phase before c = _
      rw [stepNumber, hc]
    rw [List.foldl_cons, hstep, ih hrest, List.reverse_cons, List.append_assoc,
      List.singleton_append]

/-- Between tokens a digit begins a number. -/
theorem step_between_of_next? {c : Char} {phase : NumberPhase}
    (h : NumberPhase.next? .sign c = some phase) (reversed : List Token) :
    step ⟨.between, reversed⟩ c = ⟨.number phase [c], reversed⟩ := by
  change stepBetween _ c = _
  rw [NumberPhase.next?] at h
  split_ifs at h with hzero hdigit
  · subst hzero
    cases h
    rfl
  · cases h
    unfold stepBetween
    split <;> first
      | exact absurd hdigit (by decide)
      | exact absurd rfl hzero
      | exact if_pos hdigit

/-- Behind a value: between tokens, or in a number that may end here. -/
inductive Ready : Scanner → List Token → Prop where
  | between (reversed : List Token) : Ready ⟨.between, reversed⟩ reversed
  | number {phase : NumberPhase} {chars : List Char} (reversed : List Token)
      (hphase : phase.isComplete = true) :
      Ready ⟨.number phase chars, reversed⟩ (.number (numberOf? chars.reverse) :: reversed)

/-- A written number is scanned as the number. -/
theorem exists_ready_number (n : Number) (reversed : List Token) :
    ∃ s, Ready s (.number (some n) :: reversed) ∧
      ∀ rest, (n.text ++ rest).foldl step ⟨.between, reversed⟩ = rest.foldl step s := by
  obtain ⟨negative, body, phase, htext, hphase, hrun⟩ := phase_text n
  have hready : Ready ⟨.number phase n.text.reverse, reversed⟩ (.number (some n) :: reversed) := by
    rw [← numberOf?_text n]
    conv => rhs; rw [← List.reverse_reverse n.text]
    exact .number reversed hphase
  refine ⟨_, hready, fun rest => ?_⟩
  rw [List.foldl_append]
  congr 1
  rw [htext]
  cases negative with
  | true =>
    change body.foldl step ⟨.number .sign ['-'], reversed⟩ = _
    rw [foldl_step_number hrun, if_pos rfl, List.reverse_cons]
  | false =>
    cases body with
    | nil =>
      cases hrun
      cases hphase
    | cons c others =>
      rw [List.foldlM_cons] at hrun
      obtain ⟨first, hc, hothers⟩ := Option.bind_eq_some_iff.mp hrun
      simp only [Bool.false_eq_true, if_false]
      rw [List.foldl_cons, step_between_of_next? hc, foldl_step_number hothers, List.reverse_cons]

/-! ## Values -/

/-- A character that continues no number is taken behind a value as it is between tokens. -/
theorem Ready.step_eq {s : Scanner} {reversed : List Token} (h : Ready s reversed) {c : Char}
    (hnumber : ∀ phase : NumberPhase, phase.next? c = none) (hdigit : c.isDigit = false) :
    s.step c = stepBetween ⟨.between, reversed⟩ c := by
  cases h with
  | between => rfl
  | @number phase chars before hphase =>
    change stepNumber _ phase chars c = _
    rw [stepNumber, hnumber phase]
    simp only [hphase, hdigit, Bool.and_false, Bool.not_false, Bool.and_self, if_true]
    rfl

theorem Ready.step_comma {s : Scanner} {reversed : List Token} (h : Ready s reversed) :
    s.step ',' = ⟨.between, .comma :: reversed⟩ :=
  h.step_eq (fun phase => by cases phase <;> rfl) rfl

theorem Ready.step_closeBracket {s : Scanner} {reversed : List Token} (h : Ready s reversed) :
    s.step ']' = ⟨.between, .closeBracket :: reversed⟩ :=
  h.step_eq (fun phase => by cases phase <;> rfl) rfl

theorem Ready.step_closeBrace {s : Scanner} {reversed : List Token} (h : Ready s reversed) :
    s.step '\x7d' = ⟨.between, .closeBrace :: reversed⟩ :=
  h.step_eq (fun phase => by cases phase <;> rfl) rfl

/-- The document may end behind a value. -/
theorem Ready.finish_eq {s : Scanner} {reversed : List Token} (h : Ready s reversed) :
    s.finish = reversed.reverse := by
  cases h with
  | between => rfl
  | number before hphase => exact if_pos hphase

theorem step_colon (reversed : List Token) :
    step ⟨.between, reversed⟩ ':' = ⟨.between, .colon :: reversed⟩ := rfl

mutual

/-- A written value is scanned as its tokens. -/
theorem exists_ready_value (v : Json) (reversed : List Token) :
    ∃ s, Ready s (v.tokens.reverse ++ reversed) ∧
      ∀ rest, (writeOnto v rest).foldl step ⟨.between, reversed⟩ = rest.foldl step s := by
  match v with
  | .null => exact ⟨_, .between _, fun rest => rfl⟩
  | .bool true => exact ⟨_, .between _, fun rest => rfl⟩
  | .bool false => exact ⟨_, .between _, fun rest => rfl⟩
  | .number n => exact exists_ready_number n reversed
  | .string s => exact ⟨_, .between _, fun rest => foldl_step_writeText s rest reversed⟩
  | .array [] => exact ⟨_, .between _, fun rest => rfl⟩
  | .array (v :: vs) =>
    obtain ⟨s, hs, hv⟩ := exists_ready_value v (.openBracket :: reversed)
    refine ⟨_, .between _, fun rest => ?_⟩
    change (writeOnto v (writeElements vs rest)).foldl step ⟨.between, .openBracket :: reversed⟩ = _
    rw [hv, foldl_step_elements vs hs, tokens, List.reverse_cons, List.reverse_append,
      List.append_assoc, List.append_assoc]
    rfl
  | .object [] => exact ⟨_, .between _, fun rest => rfl⟩
  | .object ((k, v) :: ms) =>
    obtain ⟨s, hs, hv⟩ :=
      exists_ready_value v (.colon :: .string (some k) :: .openBrace :: reversed)
    refine ⟨_, .between _, fun rest => ?_⟩
    change (writeText k (':' :: writeOnto v (writeMembers ms rest))).foldl step
      ⟨.between, .openBrace :: reversed⟩ = _
    rw [foldl_step_writeText, List.foldl_cons, step_colon, hv, foldl_step_members ms hs, tokens]
    simp only [List.reverse_cons, List.reverse_append, List.append_assoc, List.cons_append,
      List.nil_append]

/-- The other elements of an array are scanned as their tokens. -/
theorem foldl_step_elements (vs : List Json) {s : Scanner} {reversed : List Token}
    (h : Ready s reversed) {rest : List Char} :
    (writeElements vs rest).foldl step s =
      rest.foldl step ⟨.between, (elementTokens vs).reverse ++ reversed⟩ := by
  match vs with
  | [] =>
    rw [writeElements, List.foldl_cons, h.step_closeBracket]
    rfl
  | v :: vs =>
    obtain ⟨s', hs, hv⟩ := exists_ready_value v (.comma :: reversed)
    rw [writeElements, List.foldl_cons, h.step_comma, hv, foldl_step_elements vs hs, elementTokens,
      List.reverse_cons, List.reverse_append, List.append_assoc, List.append_assoc]
    rfl

/-- The other members of an object are scanned as their tokens. -/
theorem foldl_step_members (ms : List (String × Json)) {s : Scanner} {reversed : List Token}
    (h : Ready s reversed) {rest : List Char} :
    (writeMembers ms rest).foldl step s =
      rest.foldl step ⟨.between, (memberTokens ms).reverse ++ reversed⟩ := by
  match ms with
  | [] =>
    rw [writeMembers, List.foldl_cons, h.step_closeBrace]
    rfl
  | (k, v) :: ms =>
    obtain ⟨s', hs, hv⟩ := exists_ready_value v (.colon :: .string (some k) :: .comma :: reversed)
    rw [writeMembers, List.foldl_cons, h.step_comma, foldl_step_writeText, List.foldl_cons,
      step_colon, hv, foldl_step_members ms hs, memberTokens]
    simp only [List.reverse_cons, List.reverse_append, List.append_assoc, List.cons_append,
      List.nil_append]

end

end Scanner

/-- The document of a value consists of the tokens of the value. -/
theorem scan_write (v : Json) : scan (write v).toList = v.tokens := by
  obtain ⟨s, hs, hv⟩ := Scanner.exists_ready_value v []
  have hfinish := hs.finish_eq
  rw [List.append_nil, List.reverse_reverse] at hfinish
  rw [scan, write, String.toList_ofList, hv [], List.foldl_nil, hfinish]

end PostfixRules.Json
