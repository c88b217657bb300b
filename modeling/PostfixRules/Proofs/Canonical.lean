import PostfixRules.Proofs.Grammar
import PostfixRules.Proofs.Number.Layout
import PostfixRules.Proofs.Text.Words

/-!
# Printing and reading rule text

The trees that rule text can denote are the canonical ones: not too deep, with plain words for
fields and with values that their own text denotes. The reader builds no other tree, and it reads
the text of a canonical tree as that tree. Both walk along the grammar: a derivation of words
gives a canonical tree, and the words of a canonical tree's text have a derivation.
-/

namespace PostfixRules

/-- A word that stands for itself in rule text: it spells no operator and denotes neither a number
nor a truth value. -/
structure IsPlainWord (word : String) : Prop where
  isWord : Text.IsWord word
  notOperator : word ∉ operatorWords
  isString : (Literal.resolve word).isString = true

instance (word : String) : Decidable (IsPlainWord word) :=
  decidable_of_iff (Text.IsWord word ∧ word ∉ operatorWords ∧
    (Literal.resolve word).isString = true)
    ⟨fun ⟨h1, h2, h3⟩ => ⟨h1, h2, h3⟩, fun ⟨h1, h2, h3⟩ => ⟨h1, h2, h3⟩⟩

/-- The literals that some word denotes. -/
def Literal.IsCanonical : Literal → Prop
  | .number x => x.isFinite = true
  | .string s => IsPlainWord s
  | .boolean _ => True

/-- Every comparison of the tree has a plain word for a field and a canonical value. -/
def Expr.HasCanonicalLeaves : Expr → Prop
  | .comparison _ field value => IsPlainWord field ∧ value.IsCanonical
  | .logical _ left right => left.HasCanonicalLeaves ∧ right.HasCanonicalLeaves

/-- The trees that rule text can denote. -/
structure Expr.IsCanonical (expr : Expr) : Prop where
  depth_le : expr.depth ≤ 100
  leaves : expr.HasCanonicalLeaves

/-! ## Literals -/

namespace Literal

/-- A word denotes a finite number, a truth value, or itself. -/
theorem resolve_cases (word : String) :
    (∃ x, Double.read? word.toList = some (.finite x) ∧ resolve word = .number (.finite x)) ∨
      (∃ b, resolve word = .boolean b) ∨ resolve word = .string word := by
  unfold resolve
  split
  · rename_i x hx
    obtain ⟨double, hread, hfinite⟩ := Option.bind_eq_some_iff.mp hx
    cases double with
    | finite y =>
      cases hfinite
      exact .inl ⟨_, hread, rfl⟩
    | infinity negative => cases hfinite
    | nan => cases hfinite
  · split_ifs
    · exact .inr (.inl ⟨true, rfl⟩)
    · exact .inr (.inl ⟨false, rfl⟩)
    · exact .inr (.inr rfl)

/-- A word that denotes a text denotes itself. -/
theorem resolve_of_isString {word : String} (h : (resolve word).isString = true) :
    resolve word = .string word := by
  rcases resolve_cases word with ⟨x, -, hx⟩ | ⟨b, hb⟩ | hs
  · rw [hx] at h
    cases h
  · rw [hb] at h
    cases h
  · exact hs

/-- A word that spells no operator denotes a canonical literal. -/
theorem isCanonical_resolve {word : String} (hword : Text.IsWord word)
    (hoperator : word ∉ operatorWords) : (resolve word).IsCanonical := by
  rcases resolve_cases word with ⟨x, -, hx⟩ | ⟨b, hb⟩ | hs
  · rw [hx]
    exact rfl
  · rw [hb]
    trivial
  · rw [hs]
    exact ⟨hword, hoperator, by rw [hs]; rfl⟩

/-- A word that reads as a finite number denotes it. -/
theorem resolve_of_read {word : String} {x : Finite}
    (h : Double.read? word.toList = some (.finite x)) : resolve word = .number (.finite x) := by
  simp only [resolve, h, Option.bind_some, Double.finite?]

theorem resolve_plainText (x : Finite) :
    resolve (Double.plainText (.finite x)) = .number (.finite x) := by
  apply resolve_of_read
  rw [Double.plainText, String.toList_ofList]
  exact Double.read_text NumberStyle.hasPlainMark_plain x

/-- The text of a canonical literal denotes the literal. -/
theorem resolve_text {value : Literal} (h : value.IsCanonical) : resolve value.text = value := by
  cases value with
  | number x =>
    cases x with
    | finite x => exact resolve_plainText x
    | infinity negative => cases h
    | nan => cases h
  | string s => exact resolve_of_isString h.isString
  | boolean b => cases b <;> decide

/-- Operators denote texts, so that no other literal is spelled like one. -/
theorem isString_resolve_operator {word : String} (h : word ∈ operatorWords) :
    (resolve word).isString = true := by
  revert word
  decide

theorem text_not_mem_operatorWords {value : Literal} (h : value.IsCanonical) :
    value.text ∉ operatorWords := by
  intro hoperator
  have hstring := isString_resolve_operator hoperator
  rw [resolve_text h] at hstring
  cases value with
  | string s => exact h.notOperator hoperator
  | number x => cases hstring
  | boolean b => cases hstring

end Literal

/-- The plain text of a finite double is a single word. -/
theorem Double.isWord_plainText (x : Finite) : Text.IsWord (Double.plainText (.finite x)) := by
  constructor
  · intro hempty
    obtain ⟨d, hread, -⟩ := x.read_text NumberStyle.hasPlainMark_plain
    have hnil : x.text .plain = [] := by
      simpa only [plainText, String.toList_ofList, String.toList_empty] using
        congrArg String.toList hempty
    rw [hnil] at hread
    cases hread
  · intro c hc
    rw [plainText, String.toList_ofList] at hc
    rcases NumberStyle.mem_layout_plain hc with hdigit | rfl | rfl
    · exact Text.isBlank_of_isDigit hdigit
    · decide
    · decide

/-- The text of a canonical literal is a single word. -/
theorem Literal.isWord_text {value : Literal} (h : value.IsCanonical) :
    Text.IsWord value.text := by
  cases value with
  | number x =>
    cases x with
    | finite x => exact Double.isWord_plainText x
    | infinity negative => cases h
    | nan => cases h
  | string s => exact h.isWord
  | boolean b => cases b <;> decide

/-! ## Trees -/

/-- A row of words stands for a canonical tree only. -/
theorem Derives.isCanonical {words : List String} {expr : Expr} (h : Derives words expr)
    (hwords : ∀ word ∈ words, Text.IsWord word) : expr.IsCanonical := by
  induction h with
  | @comparison field value operator hfield hvalue htext =>
    have hf : IsPlainWord field := ⟨hwords field (by simp), hfield, htext⟩
    have hv : Text.IsWord value := hwords value (by simp)
    exact ⟨by simp [Expr.depth], hf, Literal.isCanonical_resolve hv hvalue⟩
  | logical operator hleft hright hdepth ihl ihr =>
    have hl := ihl fun word hw => hwords word (by simp [hw])
    have hr := ihr fun word hw => hwords word (by simp [hw])
    exact ⟨hdepth, hl.leaves, hr.leaves⟩

theorem isWord_operatorWord {word : String} (h : word ∈ operatorWords) : Text.IsWord word := by
  simp only [operatorWords, List.mem_cons, List.not_mem_nil, or_false] at h
  rcases h with rfl | rfl | rfl | rfl | rfl | rfl | rfl <;> decide

/-- The words of a comparison. -/
theorem words_comparison {field value : String} (operator : ComparisonOperator)
    (hfield : Text.IsWord field) (hvalue : Text.IsWord value) :
    Text.words (field ++ " " ++ value ++ " " ++ operator.symbol) =
      [field, value, operator.symbol] := by
  rw [Text.words_append_space, Text.words_append_space, Text.words_of_isWord hfield,
    Text.words_of_isWord hvalue,
    Text.words_of_isWord (isWord_operatorWord operator.symbol_mem_operatorWords)]
  rfl

/-- A plain word compared with a word that spells no operator is read as a comparison. -/
theorem parse_comparison {field value : String} (operator : ComparisonOperator)
    (hfield : IsPlainWord field) (hvalue : Text.IsWord value) (hplain : value ∉ operatorWords) :
    parse (field ++ " " ++ value ++ " " ++ operator.symbol) =
      .ok (.comparison operator field (Literal.resolve value)) := by
  rw [parse_eq_ok_iff, words_comparison operator hfield.isWord hvalue]
  exact .comparison operator hfield.notOperator hplain hfield.isString

/-- The words of a canonical tree's text stand for the tree. -/
theorem Expr.derives_words_text {expr : Expr} (hdepth : expr.depth ≤ 100)
    (hleaves : expr.HasCanonicalLeaves) : Derives (Text.words expr.text) expr := by
  induction expr with
  | comparison operator field value =>
    obtain ⟨hfield, hvalue⟩ := hleaves
    have hparse := parse_comparison operator hfield (Literal.isWord_text hvalue)
      (Literal.text_not_mem_operatorWords hvalue)
    rw [Literal.resolve_text hvalue] at hparse
    exact parse_eq_ok_iff.mp hparse
  | logical operator left right ihl ihr =>
    obtain ⟨hl, hr⟩ := hleaves
    simp only [depth] at hdepth
    rw [text, Text.words_append_space, Text.words_append_space,
      Text.words_of_isWord (isWord_operatorWord operator.word_mem_operatorWords)]
    exact .logical operator (ihl (by omega) hl) (ihr (by omega) hr) hdepth

/-- The reader builds canonical trees only. -/
theorem isCanonical_of_parse {text : String} {expr : Expr} (h : parse text = .ok expr) :
    expr.IsCanonical :=
  (parse_eq_ok_iff.mp h).isCanonical fun _ hword => Text.isWord_of_mem_words hword

/-- The text of a canonical tree is read as that tree. -/
theorem Expr.IsCanonical.parse_text {expr : Expr} (h : expr.IsCanonical) :
    parse expr.text = .ok expr :=
  parse_eq_ok_iff.mpr (derives_words_text h.depth_le h.leaves)

/-- Plain words are the fields that the reader accepts. -/
theorem isPlainWord_iff {field : String} :
    IsPlainWord field ↔
      ∃ text operator value, parse text = .ok (.comparison operator field value) := by
  constructor
  · intro h
    exact ⟨_, .equal, _, parse_comparison .equal h
      (show Text.IsWord "true" by decide) (by decide)⟩
  · rintro ⟨text, operator, value, h⟩
    exact (isCanonical_of_parse h).leaves.1

/-- Reading gives canonical trees and printing undoes it on all of them, so that reading the text of
a tree that was read gives the same tree again. -/
theorem parse_text_inverse :
    (∀ (text : String) (expr : Expr), parse text = .ok expr → expr.IsCanonical) ∧
      (∀ expr : Expr, expr.IsCanonical → parse expr.text = .ok expr) ∧
      ∀ (text : String) (expr : Expr), parse text = .ok expr → parse expr.text = .ok expr :=
  ⟨fun _ _ => isCanonical_of_parse, fun _ => Expr.IsCanonical.parse_text,
    fun _ _ h => (isCanonical_of_parse h).parse_text⟩

end PostfixRules
