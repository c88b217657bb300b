import PostfixRules.Proofs.Reading.Stack

/-!
# Where reading fails, and why

Rule text is refused at a single word, or else at its end. The word is the first one that does not
react with what is on the stack, it spells an operator, and the words after it do not matter. What
is wrong can be told from the words before it: there are too few operands, or they are of the wrong
kind, or a field is spelled as a number or a truth value. Only in this last case does the error
point elsewhere than to the operator, namely to the field.
-/

namespace PostfixRules

/-- Whether a word spells a comparison operator. -/
def IsComparisonWord (word : String) : Prop :=
  ∃ operator : ComparisonOperator, word = operator.symbol

theorem IsComparisonWord.mem_operatorWords {word : String} (h : IsComparisonWord word) :
    word ∈ operatorWords := by
  obtain ⟨operator, rfl⟩ := h
  exact operator.symbol_mem_operatorWords

theorem LogicalOperator.not_isComparisonWord (operator : LogicalOperator) :
    ¬ IsComparisonWord operator.word := by
  rintro ⟨comparison, h⟩
  have hword := operator.ofWord?_word
  rw [h, ofWord?_symbol comparison] at hword
  cases hword

/-! ## One word -/

/-- Whether an operator finds too few operands on a stack. A comparison looks at the operand on top
before it asks for another. -/
def Lacks (token : Token) (stack : List Slot) : Prop :=
  stack.length ≤ 1 ∧ ¬ (IsComparisonWord token.text ∧ ∃ expr depth below,
    stack = .built expr depth :: below)

/-- Whether an operator would compare a literal: both operands are plain words, and the one in the
place of the field denotes a number or a truth value. -/
def ComparesLiteral (token : Token) (stack : List Slot) : Prop :=
  IsComparisonWord token.text ∧ ∃ value field below,
    stack = .pending value :: .pending field :: below ∧
      (Literal.resolve field.text).isString = false

/-- Why a word is refused on a stack. -/
inductive Refuses (token : Token) (stack : List Slot) : RuleError → Prop where
  | lacking (hword : token.text ∈ operatorWords) (hlacks : Lacks token stack) :
    Refuses token stack (.stackUnderflow token.text token.position)
  | unfit {reason : Malformation} (hword : token.text ∈ operatorWords)
    (hlacks : ¬ Lacks token stack) (hliteral : ¬ ComparesLiteral token stack) :
    Refuses token stack (.malformed reason token.position)
  | literal {value field : Token} {below : List Slot} {reason : Malformation}
    (hword : IsComparisonWord token.text)
    (hstack : stack = .pending value :: .pending field :: below)
    (htext : (Literal.resolve field.text).isString = false) :
    Refuses token stack (.malformed reason field.position)

variable {token : Token} {stack : List Slot} {e : RuleError}

/-- The position that an error of reading points to. -/
def RuleError.position? : RuleError → Option Nat
  | .malformed _ position | .stackUnderflow _ position => some position
  | _ => none

/-- A comparison of a literal has its operands. -/
theorem ComparesLiteral.not_lacks (h : ComparesLiteral token stack) : ¬ Lacks token stack := by
  obtain ⟨-, value, field, below, rfl, -⟩ := h
  intro hlacks
  simpa using hlacks.1

namespace Refuses

/-- Only operators are refused. -/
theorem mem_operatorWords (h : Refuses token stack e) : token.text ∈ operatorWords := by
  cases h with
  | lacking hword | unfit hword => exact hword
  | literal hword => exact hword.mem_operatorWords

/-- Operands are said to be missing exactly where they are. -/
theorem underflow_iff (h : Refuses token stack e) :
    (∃ text position, e = .stackUnderflow text position) ↔ Lacks token stack := by
  cases h with
  | lacking hword hlacks => exact iff_of_true ⟨_, _, rfl⟩ hlacks
  | unfit hword hlacks => exact iff_of_false (by simp) hlacks
  | literal hword hstack htext =>
    have hliteral : ComparesLiteral token stack := ⟨hword, _, _, _, hstack, htext⟩
    exact iff_of_false (by simp) hliteral.not_lacks

/-- The operand that is missing is one of the operator that is refused. -/
theorem eq_of_underflow (h : Refuses token stack e) {text : String} {position : Nat}
    (he : e = .stackUnderflow text position) : text = token.text := by
  cases h with
  | lacking =>
    cases he
    rfl
  | unfit | literal => cases he

/-- An error points to the operator, unless a literal is compared. -/
theorem position?_eq (h : Refuses token stack e) (hliteral : ¬ ComparesLiteral token stack) :
    e.position? = some token.position := by
  cases h with
  | lacking | unfit => rfl
  | literal hword hstack htext => exact absurd ⟨hword, _, _, _, hstack, htext⟩ hliteral

/-- If a literal is compared, the error points to the field. -/
theorem exists_position?_eq (h : Refuses token stack e) (hliteral : ComparesLiteral token stack) :
    ∃ value field below, stack = .pending value :: .pending field :: below ∧
      e.position? = some field.position := by
  cases h with
  | lacking hword hlacks => exact absurd hlacks hliteral.not_lacks
  | unfit hword hlacks hnot => exact absurd hliteral hnot
  | literal hword hstack htext => exact ⟨_, _, _, hstack, rfl⟩

end Refuses

/-- Every operator that is taken takes two operands. -/
theorem Reacts.two_le_length {stack' : List Slot} (h : Reacts token stack stack')
    (hword : token.text ∈ operatorWords) : 2 ≤ stack.length := by
  cases h with
  | wait hplain => exact absurd hword hplain
  | compare | join => simp

namespace Builder

theorem refuses_of_reduceLogical {operator : LogicalOperator} (hword : token.text = operator.word)
    (h : reduceLogical operator token stack = .error e) : Refuses token stack e := by
  have hmem : token.text ∈ operatorWords := hword ▸ operator.word_mem_operatorWords
  have hcomparison : ¬ IsComparisonWord token.text := hword ▸ operator.not_isComparisonWord
  have hliteral : ¬ ComparesLiteral token stack := fun h => hcomparison h.1
  revert h
  fun_cases reduceLogical operator token stack with
  | case1 right rightDepth left leftDepth below depth hdeep =>
    intro h
    cases h
    exact .unfit hmem (fun h => by simpa using h.1) hliteral
  | case2 => intro h; cases h
  | case3 right left below =>
    intro h
    cases h
    exact .unfit hmem (fun h => by simpa using h.1) hliteral
  | case4 _ _ htwo =>
    intro h
    cases h
    refine .lacking hmem ⟨?_, fun h => hcomparison h.1⟩
    rcases stack with _ | ⟨right, _ | ⟨left, below⟩⟩
    · exact Nat.zero_le 1
    · exact Nat.le_refl 1
    · exact absurd rfl (htwo right left below)

theorem refuses_of_reduceComparison {operator : ComparisonOperator}
    (hword : token.text = operator.symbol)
    (h : reduceComparison operator token stack = .error e) : Refuses token stack e := by
  have hcomparison : IsComparisonWord token.text := ⟨operator, hword⟩
  have hmem := hcomparison.mem_operatorWords
  revert h
  fun_cases reduceComparison operator token stack with
  | case1 =>
    intro h
    cases h
    exact .lacking hmem ⟨Nat.zero_le 1, by simp⟩
  | case2 expr depth below =>
    intro h
    cases h
    exact .unfit hmem (fun h => h.2 ⟨hcomparison, expr, depth, below, rfl⟩)
      (by simp [ComparesLiteral])
  | case3 =>
    intro h
    cases h
    exact .lacking hmem ⟨Nat.le_refl 1, by simp⟩
  | case4 =>
    intro h
    cases h
    exact .unfit hmem (fun h => by simpa using h.1) (by simp [ComparesLiteral])
  | case5 => intro h; cases h
  | case6 value field below htext =>
    intro h
    cases h
    exact .literal hcomparison rfl (Bool.eq_false_iff.mpr htext)

/-- A word that is not taken is refused for one of these reasons. -/
theorem refuses_of_push {b : Builder} (h : b.push token = .error e) :
    Refuses token b.stack e := by
  have hreact := Outcome.map_eq_error_iff.mp h
  unfold react at hreact
  split at hreact
  · rename_i operator hl
    exact refuses_of_reduceLogical (LogicalOperator.ofWord?_eq_some hl) hreact
  · split at hreact
    · rename_i operator hc
      exact refuses_of_reduceComparison (ComparisonOperator.ofSymbol?_eq_some hc) hreact
    · cases hreact

/-- An operator without enough operands is not taken. -/
theorem push_of_lacks {b : Builder} (hword : token.text ∈ operatorWords)
    (hlacks : Lacks token b.stack) :
    b.push token = .error (.stackUnderflow token.text token.position) := by
  have hlength := hlacks.1
  cases hpush : b.push token with
  | ok b' =>
    have htwo := (push_eq_ok_iff.mp hpush).1.two_le_length hword
    omega
  | error e =>
    cases refuses_of_push hpush with
    | lacking => rfl
    | unfit _ hnot => exact absurd hlacks hnot
    | literal _ hstack =>
      rw [hstack] at hlength
      simp at hlength

end Builder

/-! ## In the words of the text -/

/-- Whether too few operands come before an operator: the words before it leave one operand or none,
and it is no comparison right after an operator. -/
def LacksOperands (before : List String) (word : String) : Prop :=
  operandSurplus before ≤ 1 ∧
    ¬ (IsComparisonWord word ∧ ∃ earlier last, before = earlier ++ [last] ∧ last ∈ operatorWords)

/-- Whether an operator would compare a literal: it is a comparison after two plain words, of which
the first denotes a number or a truth value. -/
def HasLiteralField (before : List String) (word : String) : Prop :=
  IsComparisonWord word ∧ ∃ earlier field value, before = earlier ++ [field, value] ∧
    field ∉ operatorWords ∧ value ∉ operatorWords ∧
    ((∃ x, Literal.resolve field = .number x) ∨ ∃ b, Literal.resolve field = .boolean b)

theorem Literal.isString_eq_false_iff {literal : Literal} :
    literal.isString = false ↔ (∃ x, literal = .number x) ∨ ∃ b, literal = .boolean b := by
  cases literal <;> simp [isString]

variable {before : List String} {word : String} {b : Builder}

/-- The words show whether the stack has a tree on top. -/
theorem exists_built_iff (hread : readWords before = .ok b) :
    (∃ expr depth below, b.stack = .built expr depth :: below) ↔
      ∃ earlier last, before = earlier ++ [last] ∧ last ∈ operatorWords := by
  have hmade := (madeOf_of_readWords hread).1
  rcases List.eq_nil_or_concat before with rfl | ⟨earlier, last, rfl⟩
  · rw [hmade.eq_nil]
    simp
  · rw [List.concat_eq_append, Token.number_concat] at hmade
    by_cases hlast : last ∈ operatorWords
    · obtain ⟨expr, below, hstack⟩ := hmade.exists_built hlast
      exact iff_of_true ⟨expr, _, below, hstack⟩ ⟨earlier, last, List.concat_eq_append, hlast⟩
    · obtain ⟨below, hstack, -⟩ := hmade.exists_pending hlast
      rw [hstack]
      simp [hlast]

/-- The words show whether the stack has too few operands. -/
theorem lacks_iff (hread : readWords before = .ok b) (position : Nat) :
    Lacks ⟨word, position⟩ b.stack ↔ LacksOperands before word := by
  have hlength := (madeOf_of_readWords hread).1.length_eq
  rw [Token.map_text_number] at hlength
  rw [Lacks, LacksOperands, exists_built_iff hread, ← hlength]
  exact and_congr_left fun _ => by omega

/-- Two plain words that wait on top are the last two of the words, the field being the last but
one. -/
theorem exists_of_two_pending (hread : readWords before = .ok b) {value field : Token}
    {below : List Slot} (hstack : b.stack = .pending value :: .pending field :: below) :
    ∃ earlier, before = earlier ++ [field.text, value.text] ∧ field.text ∉ operatorWords ∧
      value.text ∉ operatorWords ∧ field.position = earlier.length + 1 := by
  have hmade := (madeOf_of_readWords hread).1
  rw [hstack] at hmade
  obtain ⟨words, rfl, hvalue, -, hbelow⟩ := hmade.exists_of_pending
  obtain ⟨earlier, rfl, hfield, hposition, -⟩ := hbelow.exists_of_pending
  exact ⟨earlier, List.append_assoc _ _ _, hfield, hvalue, hposition⟩

/-- The words show whether a literal is compared. -/
theorem comparesLiteral_iff (hread : readWords before = .ok b) (position : Nat) :
    ComparesLiteral ⟨word, position⟩ b.stack ↔ HasLiteralField before word := by
  constructor
  · rintro ⟨hcomparison, value, field, below, hstack, htext⟩
    obtain ⟨earlier, hbefore, hfield, hvalue, -⟩ := exists_of_two_pending hread hstack
    exact ⟨hcomparison, earlier, _, _, hbefore, hfield, hvalue,
      Literal.isString_eq_false_iff.mp htext⟩
  · rintro ⟨hcomparison, earlier, field, value, rfl, hfield, hvalue, hliteral⟩
    have hmade := (madeOf_of_readWords hread).1
    rw [List.append_cons, Token.number_concat] at hmade
    obtain ⟨one, hone, hmade⟩ := hmade.exists_pending hvalue
    rw [Token.number_concat] at hmade
    obtain ⟨two, htwo, -⟩ := hmade.exists_pending hfield
    exact ⟨hcomparison, _, _, two, hone.trans (congrArg _ htwo),
      Literal.isString_eq_false_iff.mpr hliteral⟩

/-! ## In the text -/

/-- Whether reading fails at a word, with an error: all words before it are taken, and it is not. -/
def FailsAt (before : List String) (word : String) (e : RuleError) : Prop :=
  ∃ b, readWords before = .ok b ∧ b.push ⟨word, before.length + 1⟩ = .error e

/-- Whether reading fails at the end of words, all of which are taken. -/
def FailsAtEnd (words : List String) (e : RuleError) : Prop :=
  ∃ b, readWords words = .ok b ∧ b.finish = .error e

/-- What the words up to the one at which reading fails say about the error. -/
structure Localises (before : List String) (word : String) (e : RuleError) : Prop where
  operator : word ∈ operatorWords
  /-- Every text that begins with these words fails with the same error. -/
  decides : ∀ text after, Text.words text = before ++ word :: after → parse text = .error e
  position : ¬ HasLiteralField before word → e.position? = some (before.length + 1)
  /-- The field is the word before the word before. -/
  field_position : HasLiteralField before word → e.position? = some (before.length + 1 - 2)
  /-- A missing operand is that of this word. -/
  underflow : ∀ token position, e = .stackUnderflow token position → token = word
  underflow_iff : (∃ token position, e = .stackUnderflow token position) ↔
    LacksOperands before word

variable {e : RuleError}

/-- Words are not taken exactly if there is a first one that is not. -/
theorem readWords_eq_error_iff {words : List String} :
    readWords words = .error e ↔
      ∃ before word after, words = before ++ word :: after ∧ FailsAt before word e := by
  constructor
  · intro h
    induction words using List.reverseRecOn with
    | nil => cases h
    | append_singleton earlier word ih =>
      rw [readWords_concat] at h
      rcases Outcome.bind_eq_error_iff.mp h with hearlier | hpush
      · obtain ⟨before, failing, after, rfl, hfails⟩ := ih hearlier
        exact ⟨before, failing, after ++ [word], List.append_assoc _ _ _, hfails⟩
      · exact ⟨earlier, word, [], rfl, hpush⟩
  · rintro ⟨before, word, after, rfl, b, hread, hpush⟩
    rw [List.append_cons]
    refine readWords_append_of_error ?_ after
    rw [readWords_concat, hread]
    exact hpush

/-- Text with words is refused at the first word that is not taken, or else at its end. -/
theorem parse_eq_error_iff {text : String} (h : Text.words text ≠ []) :
    parse text = .error e ↔
      (∃ before word after, Text.words text = before ++ word :: after ∧ FailsAt before word e) ∨
        FailsAtEnd (Text.words text) e := by
  rw [parse_eq_readWords h, Outcome.bind_eq_error_iff, readWords_eq_error_iff]
  rfl

theorem FailsAt.parse_eq {text : String} {after : List String} (h : FailsAt before word e)
    (hwords : Text.words text = before ++ word :: after) : parse text = .error e := by
  refine (parse_eq_error_iff ?_).mpr (.inl ⟨before, word, after, hwords, h⟩)
  rw [hwords]
  exact List.append_ne_nil_of_right_ne_nil before (List.cons_ne_nil word after)

/-- An operator fails for want of operands exactly if the words before it leave too few. -/
theorem failsAt_underflow_iff (hread : readWords before = .ok b) (hword : word ∈ operatorWords) :
    FailsAt before word (.stackUnderflow word (before.length + 1)) ↔
      LacksOperands before word := by
  constructor
  · rintro ⟨b', hread', hpush⟩
    cases Builder.refuses_of_push hpush with
    | lacking _ hlacks => exact (lacks_iff hread' _).mp hlacks
  · intro hlacks
    exact ⟨b, hread, Builder.push_of_lacks hword ((lacks_iff hread _).mpr hlacks)⟩

/-- The words up to the one at which reading fails say where and why. -/
theorem FailsAt.localises (h : FailsAt before word e) : Localises before word e := by
  obtain ⟨b, hread, hpush⟩ := id h
  have hrefuses := Builder.refuses_of_push hpush
  constructor
  case operator => exact hrefuses.mem_operatorWords
  case decides => exact fun text after hwords => h.parse_eq hwords
  case position =>
    intro hfield
    exact hrefuses.position?_eq fun h => hfield ((comparesLiteral_iff hread _).mp h)
  case field_position =>
    intro hfield
    obtain ⟨value, field, below, hstack, hposition⟩ :=
      hrefuses.exists_position?_eq ((comparesLiteral_iff hread _).mpr hfield)
    obtain ⟨earlier, rfl, -, -, hplace⟩ := exists_of_two_pending hread hstack
    rw [hposition, hplace, List.length_append]
    rfl
  case underflow => exact fun token position he => hrefuses.eq_of_underflow he
  case underflow_iff => exact hrefuses.underflow_iff.trans (lacks_iff hread _)

/-- At the end the error points to the last word. -/
theorem FailsAtEnd.exists_malformed {words : List String} (h : FailsAtEnd words e) :
    ∃ reason, e = .malformed reason words.length := by
  obtain ⟨b, hread, hfinish⟩ := h
  obtain ⟨hmade, hposition⟩ := madeOf_of_readWords hread
  unfold Builder.finish at hfinish
  split at hfinish
  · cases hfinish
  · rename_i token hstack
    cases hfinish
    rw [hstack] at hmade
    obtain ⟨earlier, rfl, -, hplace, hbelow⟩ := hmade.exists_of_pending
    rw [hplace, List.length_append]
    exact ⟨_, rfl⟩
  · cases hfinish
    rw [hposition]
    exact ⟨_, rfl⟩

/-- Text with words that is refused is refused at one of its words or at its end. A word at which
reading fails is an operator, decides the error together with the words before it, and is what the
error points to, unless the field of a comparison is a literal. An operator is refused for want of
operands exactly if the words before it leave too few. At the end the error points to the last word.
-/
theorem parse_fails_at_first_refused_word :
    (∀ text e, Text.words text ≠ [] → (parse text = .error e ↔
      (∃ before word after, Text.words text = before ++ word :: after ∧ FailsAt before word e) ∨
        FailsAtEnd (Text.words text) e)) ∧
    (∀ before word e, FailsAt before word e → Localises before word e) ∧
    (∀ before word b, readWords before = .ok b → word ∈ operatorWords →
      (FailsAt before word (.stackUnderflow word (before.length + 1)) ↔
        LacksOperands before word)) ∧
    ∀ words e, FailsAtEnd words e → ∃ reason, e = .malformed reason words.length :=
  ⟨fun _ _ h => parse_eq_error_iff h, fun _ _ _ h => h.localises,
    fun _ _ _ hread hword => failsAt_underflow_iff hread hword, fun _ _ h => h.exists_malformed⟩

/-- The error points to the field, two words before the operator. -/
example : parse "30 age >" = .error (.malformed (.literalAsField .greater "30") 1) := by
  decide +kernel

end PostfixRules
