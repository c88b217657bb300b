import Mathlib.Data.List.Induction
import PostfixRules.Proofs.Grammar
import PostfixRules.Proofs.Outcome

/-!
# What the stack is made of

The slots of the stack, bottom first, are made of the words taken so far, each of which goes into
exactly one slot: a plain word waits as the token that it was read as, and a tree is made of a row
of words that the grammar derives. So the number of slots, and what kind of operand is on top, can
be told from the words alone.
-/

namespace PostfixRules

/-! ## Counting operands -/

/-- How many operands a row of words leaves behind if it is taken: a plain word adds one, and an
operator makes one of two. -/
def operandSurplus (words : List String) : Int :=
  (words.countP (· ∉ operatorWords) : Int) - words.countP (· ∈ operatorWords)

theorem operandSurplus_append (words rest : List String) :
    operandSurplus (words ++ rest) = operandSurplus words + operandSurplus rest := by
  simp only [operandSurplus, List.countP_append]
  omega

theorem operandSurplus_singleton_of_mem {word : String} (h : word ∈ operatorWords) :
    operandSurplus [word] = -1 := by
  simp [operandSurplus, h]

theorem operandSurplus_singleton_of_not_mem {word : String} (h : word ∉ operatorWords) :
    operandSurplus [word] = 1 := by
  simp [operandSurplus, h]

namespace Derives

variable {words : List String} {expr : Expr}

/-- The words of a tree leave one operand. -/
theorem operandSurplus_eq (h : Derives words expr) : operandSurplus words = 1 := by
  induction h with
  | @comparison field value operator hfield hvalue htext =>
    have hcons : [field, value, operator.symbol] = [field] ++ [value] ++ [operator.symbol] := rfl
    rw [hcons, operandSurplus_append, operandSurplus_append,
      operandSurplus_singleton_of_not_mem hfield, operandSurplus_singleton_of_not_mem hvalue,
      operandSurplus_singleton_of_mem operator.symbol_mem_operatorWords]
    rfl
  | logical operator hleft hright hdepth ihl ihr =>
    rw [operandSurplus_append, operandSurplus_append, ihl, ihr,
      operandSurplus_singleton_of_mem operator.word_mem_operatorWords]
    rfl

/-- The last word of a tree is an operator. -/
theorem exists_concat (h : Derives words expr) :
    ∃ earlier operator, words = earlier ++ [operator] ∧ operator ∈ operatorWords := by
  cases h with
  | @comparison field value operator hfield hvalue htext =>
    exact ⟨[field, value], _, rfl, operator.symbol_mem_operatorWords⟩
  | logical operator hleft hright hdepth => exact ⟨_, _, rfl, operator.word_mem_operatorWords⟩

end Derives

/-! ## Slots and tokens -/

/-- The slots of a stack, bottom first, are made of a row of tokens. -/
inductive MadeOf : List Slot → List Token → Prop where
  | empty : MadeOf [] []
  | pending {stack : List Slot} {tokens : List Token} {token : Token}
    (hbelow : MadeOf stack tokens) (hword : token.text ∉ operatorWords) :
    MadeOf (.pending token :: stack) (tokens ++ [token])
  | built {stack : List Slot} {tokens piece : List Token} {expr : Expr}
    (hbelow : MadeOf stack tokens) (hpiece : Derives (piece.map Token.text) expr) :
    MadeOf (.built expr expr.depth :: stack) (tokens ++ piece)

namespace MadeOf

variable {stack stack' : List Slot} {tokens : List Token} {token : Token}

/-- A word that reacts with the stack goes into one of its slots. -/
theorem step (h : MadeOf stack tokens) (hreacts : Reacts token stack stack') :
    MadeOf stack' (tokens ++ [token]) := by
  cases hreacts with
  | wait hword => exact h.pending hword
  | @compare below field value operator hword htext =>
    obtain _ | ⟨_ | ⟨hbelow, hfield⟩, hvalue⟩ := h
    rw [List.append_assoc, List.append_assoc]
    refine hbelow.built ?_
    rw [List.singleton_append, List.singleton_append, List.map_cons, List.map_cons,
      List.map_singleton, hword]
    exact .comparison operator hfield hvalue htext
  | join operator hword hdepth =>
    obtain _ | _ | ⟨_ | _ | ⟨hbelow, hleft⟩, hright⟩ := h
    rw [List.append_assoc, List.append_assoc, ← List.append_assoc _ _ [token]]
    refine hbelow.built ?_
    rw [List.map_append, List.map_append, List.map_singleton, hword]
    exact .logical operator hleft hright hdepth

/-- There are as many slots as the words leave operands. -/
theorem length_eq (h : MadeOf stack tokens) :
    (stack.length : Int) = operandSurplus (tokens.map Token.text) := by
  induction h with
  | empty => rfl
  | pending hbelow hword ih =>
    rw [List.map_append, List.map_singleton, operandSurplus_append, ← ih,
      operandSurplus_singleton_of_not_mem hword]
    rfl
  | built hbelow hpiece ih =>
    rw [List.map_append, operandSurplus_append, ← ih, hpiece.operandSurplus_eq]
    rfl

/-- Without words the stack is empty. -/
theorem eq_nil (h : MadeOf stack []) : stack = [] := by
  have hlength : (stack.length : Int) = 0 := h.length_eq
  exact List.length_eq_zero_iff.mp (by omega)

/-- Where the last word is plain, it waits on top of what the words before it have left: the last
word of a tree is an operator. -/
theorem exists_pending (h : MadeOf stack (tokens ++ [token])) (hword : token.text ∉ operatorWords) :
    ∃ below, stack = .pending token :: below ∧ MadeOf below tokens := by
  generalize hall : tokens ++ [token] = all at h
  cases h with
  | empty => simp at hall
  | pending hbelow =>
    obtain ⟨rfl, rfl⟩ := List.append_singleton_inj.mp hall
    exact ⟨_, rfl, hbelow⟩
  | @built below earlier piece expr hbelow hpiece =>
    obtain ⟨words, operator, hwords, hoperator⟩ := hpiece.exists_concat
    obtain ⟨ptokens, rest, rfl, -, hrest⟩ := List.map_eq_append_iff.mp hwords
    obtain ⟨last, rfl, rfl⟩ := List.map_eq_singleton_iff.mp hrest
    rw [← List.append_assoc] at hall
    obtain ⟨-, rfl⟩ := List.append_singleton_inj.mp hall
    exact absurd hoperator hword

/-- Where the last word is an operator, it has left a tree on top. -/
theorem exists_built (h : MadeOf stack (tokens ++ [token])) (hword : token.text ∈ operatorWords) :
    ∃ expr below, stack = .built expr expr.depth :: below := by
  generalize hall : tokens ++ [token] = all at h
  cases h with
  | empty => simp at hall
  | pending hbelow hplain =>
    obtain ⟨rfl, rfl⟩ := List.append_singleton_inj.mp hall
    exact absurd hword hplain
  | built hbelow hpiece => exact ⟨_, _, rfl⟩

end MadeOf

/-! ## Rows of words -/

namespace Token

theorem number_append (position : Nat) (words rest : List String) :
    number position (words ++ rest) =
      number position words ++ number (position + words.length) rest := by
  rw [number, List.zipIdx_append, List.map_append, number, number]

theorem number_concat (position : Nat) (words : List String) (word : String) :
    number position (words ++ [word]) =
      number position words ++ [⟨word, position + words.length⟩] :=
  number_append position words [word]

/-- The last of numbered words is the last word, at its place. -/
theorem exists_of_number_eq_concat {words : List String} {tokens : List Token} {token : Token}
    (h : number 1 words = tokens ++ [token]) :
    ∃ earlier, words = earlier ++ [token.text] ∧ tokens = number 1 earlier ∧
      token.position = earlier.length + 1 := by
  have hwords : words = tokens.map text ++ [token.text] := by
    rw [← map_text_number 1 words, h, List.map_append, List.map_singleton]
  rw [hwords, number_concat] at h
  obtain ⟨htokens, htoken⟩ := List.append_singleton_inj.mp h
  refine ⟨_, hwords, htokens.symm, ?_⟩
  rw [← htoken, Nat.add_comm]

end Token

/-- A plain word that waits on top is the last of the words, and keeps its place. -/
theorem MadeOf.exists_of_pending {token : Token} {below : List Slot} {words : List String}
    (h : MadeOf (.pending token :: below) (Token.number 1 words)) :
    ∃ earlier, words = earlier ++ [token.text] ∧ token.text ∉ operatorWords ∧
      token.position = earlier.length + 1 ∧ MadeOf below (Token.number 1 earlier) := by
  generalize htokens : Token.number 1 words = tokens at h
  cases h with
  | pending hbelow hword =>
    obtain ⟨earlier, hwords, rfl, hposition⟩ := Token.exists_of_number_eq_concat htokens
    exact ⟨earlier, hwords, hword, hposition, hbelow⟩

/-- Take words, the first of which is at position one. -/
def readWords (words : List String) : Except RuleError Builder :=
  (Token.number 1 words).foldlM Builder.push Builder.start

theorem readWords_append (words rest : List String) :
    readWords (words ++ rest) = (readWords words).bind fun b =>
      (Token.number (1 + words.length) rest).foldlM Builder.push b := by
  rw [readWords, Token.number_append, List.foldlM_append, readWords]
  rfl

theorem readWords_concat (words : List String) (word : String) :
    readWords (words ++ [word]) =
      (readWords words).bind fun b => b.push ⟨word, words.length + 1⟩ := by
  rw [readWords_append, Nat.add_comm 1]
  cases readWords words with
  | error e => rfl
  | ok b => exact List.foldlM_cons.trans (bind_pure _)

/-- Words that are not taken are not taken in a longer row either. -/
theorem readWords_append_of_error {words : List String} {e : RuleError}
    (h : readWords words = .error e) (rest : List String) :
    readWords (words ++ rest) = .error e := by
  rw [readWords_append, h]
  rfl

/-- After words have been taken, the stack is made of them, and the last position is their number.
-/
theorem madeOf_of_readWords {words : List String} {b : Builder} (h : readWords words = .ok b) :
    MadeOf b.stack (Token.number 1 words) ∧ b.lastPosition = words.length := by
  induction words using List.reverseRecOn generalizing b with
  | nil =>
    cases h
    exact ⟨.empty, rfl⟩
  | append_singleton earlier word ih =>
    rw [readWords_concat] at h
    obtain ⟨b', hearlier, hpush⟩ := Outcome.bind_eq_ok_iff.mp h
    obtain ⟨hreacts, hposition⟩ := Builder.push_eq_ok_iff.mp hpush
    rw [Token.number_concat, Nat.add_comm 1, List.length_append]
    exact ⟨(ih hearlier).1.step hreacts, hposition⟩

/-- Text with words is read by taking its words. -/
theorem parse_eq_readWords {text : String} (h : Text.words text ≠ []) :
    parse text = (readWords (Text.words text)).bind Builder.finish := by
  have htokens : (Token.number 1 (Text.words text)).isEmpty = false := by
    rw [List.isEmpty_eq_false_iff]
    intro hempty
    have hmap := Token.map_text_number 1 (Text.words text)
    rw [hempty] at hmap
    exact h hmap.symm
  simp only [parse, tokenize, htokens, Bool.false_eq_true, if_false]
  rfl

end PostfixRules
