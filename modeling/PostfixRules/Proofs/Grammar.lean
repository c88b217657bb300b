import Mathlib.Tactic.SplitIfs
import PostfixRules.Parser

/-!
# The postfix grammar

`Derives` says which rows of words stand for which tree, without a stack and without positions. The
reader of rule text accepts exactly the rows that the grammar derives and builds the tree of the
derivation. Soundness carries `Spells` along a run: the slots of the stack, bottom first, spell the
words taken so far. Completeness runs the words of a derivation on any stack, where they leave one
more slot and touch nothing below it.
-/

namespace PostfixRules

/-- The words that rule text keeps for its operators. -/
def operatorWords : List String :=
  [">", "<", "=", ">=", "<=", "AND", "OR"]

/-- The rows of words that stand for a tree. -/
inductive Derives : List String → Expr → Prop where
  /-- A field, which reads neither as a number nor as a truth value, a value and an operator. -/
  | comparison {field value : String} (operator : ComparisonOperator)
      (hfield : field ∉ operatorWords) (hvalue : value ∉ operatorWords)
      (htext : (Literal.resolve field).isString = true) :
      Derives [field, value, operator.symbol]
        (.comparison operator field (Literal.resolve value))
  /-- Two trees and an operator, unless the result is too deep. -/
  | logical {left right : List String} {l r : Expr} (operator : LogicalOperator)
      (hleft : Derives left l) (hright : Derives right r)
      (hdepth : 1 + max l.depth r.depth ≤ 100) :
      Derives (left ++ right ++ [operator.word]) (.logical operator l r)

/-! ## Operator words -/

theorem ComparisonOperator.ofSymbol?_symbol (operator : ComparisonOperator) :
    ofSymbol? operator.symbol = some operator := by
  cases operator <;> rfl

theorem LogicalOperator.ofWord?_word (operator : LogicalOperator) :
    ofWord? operator.word = some operator := by
  cases operator <;> rfl

theorem LogicalOperator.ofWord?_symbol (operator : ComparisonOperator) :
    ofWord? operator.symbol = none := by
  cases operator <;> rfl

theorem ComparisonOperator.ofSymbol?_eq_some {text : String} {operator : ComparisonOperator}
    (h : ofSymbol? text = some operator) : text = operator.symbol := by
  unfold ofSymbol? at h
  split_ifs at h with h1 h2 h3 h4 h5 <;> cases h <;> assumption

theorem LogicalOperator.ofWord?_eq_some {text : String} {operator : LogicalOperator}
    (h : ofWord? text = some operator) : text = operator.word := by
  unfold ofWord? at h
  split_ifs at h with h1 h2 <;> cases h <;> assumption

/-- A word is kept for an operator exactly if it spells one of either kind. -/
theorem not_mem_operatorWords_iff {text : String} :
    text ∉ operatorWords ↔
      LogicalOperator.ofWord? text = none ∧ ComparisonOperator.ofSymbol? text = none := by
  constructor
  · intro h
    simp only [operatorWords, List.mem_cons, List.not_mem_nil, or_false, not_or] at h
    obtain ⟨h1, h2, h3, h4, h5, h6, h7⟩ := h
    simp only [LogicalOperator.ofWord?, ComparisonOperator.ofSymbol?, h1, h2, h3, h4, h5, h6, h7,
      if_false, and_self]
  · rintro ⟨hl, hc⟩ hm
    simp only [operatorWords, List.mem_cons, List.not_mem_nil, or_false] at hm
    rcases hm with rfl | rfl | rfl | rfl | rfl | rfl | rfl <;> simp_all [LogicalOperator.ofWord?,
      ComparisonOperator.ofSymbol?]

theorem ComparisonOperator.symbol_mem_operatorWords (operator : ComparisonOperator) :
    operator.symbol ∈ operatorWords := by
  cases operator <;> decide

theorem LogicalOperator.word_mem_operatorWords (operator : LogicalOperator) :
    operator.word ∈ operatorWords := by
  cases operator <;> decide

/-! ## One word -/

/-- What a word may do to the stack: wait there, make a comparison, or join two trees. -/
inductive Reacts (token : Token) : List Slot → List Slot → Prop where
  | wait {stack : List Slot} (hword : token.text ∉ operatorWords) :
      Reacts token stack (.pending token :: stack)
  | compare {below : List Slot} {field value : Token} (operator : ComparisonOperator)
      (hword : token.text = operator.symbol)
      (htext : (Literal.resolve field.text).isString = true) :
      Reacts token (.pending value :: .pending field :: below)
        (.built (.comparison operator field.text (Literal.resolve value.text)) 1 :: below)
  | join {below : List Slot} {l r : Expr} {ld rd : Nat} (operator : LogicalOperator)
      (hword : token.text = operator.word) (hdepth : 1 + max ld rd ≤ maxDepth) :
      Reacts token (.built r rd :: .built l ld :: below)
        (.built (.logical operator l r) (1 + max ld rd) :: below)

namespace Builder

theorem reduceLogical_eq_ok {operator : LogicalOperator} {token : Token}
    {stack stack' : List Slot} (hword : token.text = operator.word)
    (h : reduceLogical operator token stack = .ok stack') : Reacts token stack stack' := by
  revert h
  fun_cases reduceLogical operator token stack with
  | case1 r rd l ld below depth hd => intro h; cases h
  | case2 r rd l ld below depth hd =>
    intro h
    cases h
    exact .join operator hword (Nat.le_of_not_lt hd)
  | case3 | case4 => intro h; cases h

theorem reduceComparison_eq_ok {operator : ComparisonOperator} {token : Token}
    {stack stack' : List Slot} (hword : token.text = operator.symbol)
    (h : reduceComparison operator token stack = .ok stack') : Reacts token stack stack' := by
  revert h
  fun_cases reduceComparison operator token stack with
  | case1 | case2 | case3 | case4 => intro h; cases h
  | case5 value field below htext =>
    intro h
    cases h
    exact .compare operator hword htext
  | case6 => intro h; cases h

/-- A word is taken without an error exactly if it reacts with the stack. -/
theorem react_eq_ok_iff {stack stack' : List Slot} {token : Token} :
    react stack token = .ok stack' ↔ Reacts token stack stack' := by
  constructor
  · intro h
    unfold react at h
    split at h
    · rename_i operator hl
      exact reduceLogical_eq_ok (LogicalOperator.ofWord?_eq_some hl) h
    · rename_i hl
      split at h
      · rename_i operator hc
        exact reduceComparison_eq_ok (ComparisonOperator.ofSymbol?_eq_some hc) h
      · rename_i hc
        cases h
        exact .wait (not_mem_operatorWords_iff.mpr ⟨hl, hc⟩)
  · rintro (hword | ⟨operator, hword, htext⟩ | ⟨operator, hword, hdepth⟩)
    · obtain ⟨hl, hc⟩ := not_mem_operatorWords_iff.mp hword
      simp only [react, hl, hc]
    · simp only [react, hword, LogicalOperator.ofWord?_symbol,
        ComparisonOperator.ofSymbol?_symbol, reduceComparison, htext, if_true]
    · simp only [react, hword, LogicalOperator.ofWord?_word, reduceLogical,
        Nat.not_lt.mpr hdepth, if_false]

/-- A word is pushed without an error exactly if it reacts with the stack. -/
theorem push_eq_ok_iff {b b' : Builder} {token : Token} :
    b.push token = .ok b' ↔
      Reacts token b.stack b'.stack ∧ b'.lastPosition = token.position := by
  rw [← react_eq_ok_iff, push]
  cases react b.stack token with
  | error e => simp [Except.map]
  | ok stack =>
    obtain ⟨stack', position⟩ := b'
    simp [Except.map, eq_comm]

/-- The only stack that finishes is a single tree. -/
theorem finish_eq_ok_iff {b : Builder} {expr : Expr} :
    b.finish = .ok expr ↔ ∃ depth, b.stack = [.built expr depth] := by
  unfold finish
  constructor
  · intro h
    split at h
    · rename_i e d hs
      cases h
      exact ⟨d, hs⟩
    · cases h
    · cases h
  · rintro ⟨depth, hs⟩
    rw [hs]

end Builder

/-! ## Runs -/

/-- The slots of a stack, bottom first, spell a row of words; every tree stands for its words and
carries its depth. -/
inductive Spells : List Slot → List String → Prop where
  | empty : Spells [] []
  | pending {stack : List Slot} {words : List String} {token : Token} (hbelow : Spells stack words)
      (hword : token.text ∉ operatorWords) :
      Spells (.pending token :: stack) (words ++ [token.text])
  | built {stack : List Slot} {words piece : List String} {expr : Expr}
      (hbelow : Spells stack words) (hpiece : Derives piece expr) :
      Spells (.built expr expr.depth :: stack) (words ++ piece)

/-- A word that reacts with the stack is spelled behind the words before it. -/
theorem Spells.step {stack stack' : List Slot} {words : List String} {token : Token}
    (hs : Spells stack words) (h : Reacts token stack stack') :
    Spells stack' (words ++ [token.text]) := by
  cases h with
  | wait hword => exact hs.pending hword
  | compare operator hword htext =>
    obtain _ | ⟨_ | ⟨hbelow, hfield⟩, hvalue⟩ := hs
    rw [hword, List.append_assoc, List.append_assoc]
    exact hbelow.built (.comparison operator hfield hvalue htext)
  | join operator hword hdepth =>
    obtain _ | _ | ⟨_ | _ | ⟨hbelow, hleft⟩, hright⟩ := hs
    rw [hword, List.append_assoc, List.append_assoc, ← List.append_assoc _ _ [operator.word]]
    exact hbelow.built (.logical operator hleft hright hdepth)

/-- Whatever has been taken without an error is spelled by the stack. -/
theorem Spells.run {tokens : List Token} {b b' : Builder} {words : List String}
    (hs : Spells b.stack words) (h : tokens.foldlM Builder.push b = .ok b') :
    Spells b'.stack (words ++ tokens.map Token.text) := by
  induction tokens generalizing b words with
  | nil =>
    cases h
    simpa using hs
  | cons token rest ih =>
    rw [List.foldlM_cons] at h
    cases hp : b.push token with
    | error e => rw [hp] at h; cases h
    | ok next =>
      rw [hp] at h
      have hn := ih (hs.step (Builder.push_eq_ok_iff.mp hp).1) h
      simpa only [List.map_cons, List.append_assoc, List.singleton_append] using hn

theorem Builder.foldlM_push_cons {b b' : Builder} {token : Token} (rest : List Token)
    (h : b.push token = .ok b') :
    (token :: rest).foldlM Builder.push b = rest.foldlM Builder.push b' := by
  rw [List.foldlM_cons, h]
  rfl

theorem Builder.foldlM_push_append {b b' : Builder} {tokens : List Token} (rest : List Token)
    (h : tokens.foldlM Builder.push b = .ok b') :
    (tokens ++ rest).foldlM Builder.push b = rest.foldlM Builder.push b' := by
  rw [List.foldlM_append, h]
  rfl

/-- On any stack the words of a derivation leave its tree with its depth, above what was there. -/
theorem Derives.run {words : List String} {expr : Expr} (h : Derives words expr) :
    ∀ {tokens : List Token} (b : Builder), tokens.map Token.text = words →
      ∃ position, tokens.foldlM Builder.push b =
        .ok ⟨.built expr expr.depth :: b.stack, position⟩ := by
  induction h with
  | @comparison field value operator hfield hvalue htext =>
    intro tokens b ht
    obtain ⟨f, vs, rfl, rfl, hvs⟩ := List.map_eq_cons_iff.mp ht
    obtain ⟨v, os, rfl, rfl, hos⟩ := List.map_eq_cons_iff.mp hvs
    obtain ⟨o, rest, rfl, ho, hrest⟩ := List.map_eq_cons_iff.mp hos
    obtain rfl := List.map_eq_nil_iff.mp hrest
    have hf : b.push f = .ok ⟨.pending f :: b.stack, f.position⟩ :=
      Builder.push_eq_ok_iff.mpr ⟨.wait hfield, rfl⟩
    have hv : Builder.push ⟨.pending f :: b.stack, f.position⟩ v =
        .ok ⟨.pending v :: .pending f :: b.stack, v.position⟩ :=
      Builder.push_eq_ok_iff.mpr ⟨.wait hvalue, rfl⟩
    have hc : Builder.push ⟨.pending v :: .pending f :: b.stack, v.position⟩ o =
        .ok ⟨.built (.comparison operator f.text (Literal.resolve v.text)) 1 :: b.stack,
          o.position⟩ :=
      Builder.push_eq_ok_iff.mpr ⟨.compare operator ho htext, rfl⟩
    refine ⟨o.position, ?_⟩
    rw [Builder.foldlM_push_cons _ hf, Builder.foldlM_push_cons _ hv,
      Builder.foldlM_push_cons _ hc]
    rfl
  | @logical left right l r operator hleft hright hdepth ihl ihr =>
    intro tokens b ht
    obtain ⟨both, last, rfl, hboth, hlast⟩ := List.map_eq_append_iff.mp ht
    obtain ⟨ltokens, rtokens, rfl, hlt, hrt⟩ := List.map_eq_append_iff.mp hboth
    obtain ⟨o, rest, rfl, ho, hrest⟩ := List.map_eq_cons_iff.mp hlast
    obtain rfl := List.map_eq_nil_iff.mp hrest
    obtain ⟨lp, hl⟩ := ihl b hlt
    obtain ⟨rp, hr⟩ := ihr ⟨.built l l.depth :: b.stack, lp⟩ hrt
    have hj : Builder.push ⟨.built r r.depth :: .built l l.depth :: b.stack, rp⟩ o =
        .ok ⟨.built (.logical operator l r) (1 + max l.depth r.depth) :: b.stack, o.position⟩ :=
      Builder.push_eq_ok_iff.mpr ⟨.join operator ho hdepth, rfl⟩
    refine ⟨o.position, ?_⟩
    rw [List.append_assoc, Builder.foldlM_push_append _ hl, Builder.foldlM_push_append _ hr,
      Builder.foldlM_push_cons _ hj]
    rfl

/-! ## Whole texts -/

theorem Token.map_text_number (position : Nat) (words : List String) :
    (Token.number position words).map Token.text = words := by
  rw [Token.number, List.map_map]
  exact List.zipIdx_map_fst position words

/-- A single tree on the stack stands for all the words that the stack spells. -/
theorem Spells.derives {words : List String} {expr : Expr} {depth : Nat}
    (h : Spells [.built expr depth] words) : Derives words expr := by
  obtain _ | _ | ⟨⟨⟩, hpiece⟩ := h
  exact hpiece

/-- A row of tokens is read as a tree exactly if the grammar derives its words. -/
theorem parseTokens_eq_ok_iff {tokens : List Token} {expr : Expr} :
    parseTokens tokens = .ok expr ↔ Derives (tokens.map Token.text) expr := by
  constructor
  · intro h
    unfold parseTokens at h
    cases hr : tokens.foldlM Builder.push Builder.start with
    | error e => rw [hr] at h; cases h
    | ok b =>
      rw [hr] at h
      obtain ⟨depth, hb⟩ := Builder.finish_eq_ok_iff.mp h
      have hs := Spells.run (b := Builder.start) .empty hr
      rw [hb] at hs
      exact hs.derives
  · intro h
    obtain ⟨position, hr⟩ := h.run Builder.start rfl
    rw [parseTokens, hr]
    rfl

theorem Derives.ne_nil {words : List String} {expr : Expr} (h : Derives words expr) :
    words ≠ [] := by
  cases h <;> simp

/-- Rule text is read as a tree exactly if the grammar derives its words. -/
theorem parse_eq_ok_iff {text : String} {expr : Expr} :
    parse text = .ok expr ↔ Derives (Text.words text) expr := by
  simp only [parse, tokenize]
  split_ifs with he
  · have hw : Text.words text = [] := by
      rw [← Token.map_text_number 1 (Text.words text), List.isEmpty_iff.mp he, List.map_nil]
    constructor
    · intro h
      cases h
    · intro h
      exact absurd hw h.ne_nil
  · change parseTokens _ = _ ↔ _
    rw [parseTokens_eq_ok_iff, Token.map_text_number]

/-- A row of words stands for at most one tree. -/
theorem Derives.unique {words : List String} {expr expr' : Expr} (h : Derives words expr)
    (h' : Derives words expr') : expr = expr' := by
  rw [← Token.map_text_number 1 words, ← parseTokens_eq_ok_iff] at h h'
  exact Except.ok.inj (h.symm.trans h')

/-- The reader accepts exactly the texts whose words the grammar derives, builds the tree of the
derivation, and no row of words has two trees. -/
theorem parse_iff_derives_and_unique :
    (∀ (text : String) (expr : Expr), parse text = .ok expr ↔ Derives (Text.words text) expr) ∧
      ∀ (words : List String) (expr expr' : Expr),
        Derives words expr → Derives words expr' → expr = expr' :=
  ⟨fun _ _ => parse_eq_ok_iff, fun _ _ _ h h' => h.unique h'⟩

end PostfixRules
