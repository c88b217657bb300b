import PostfixRules.Proofs.Canonical
import PostfixRules.Proofs.Comparisons
import PostfixRules.Proofs.Reading.Stack
import PostfixRules.Proofs.Token
import PostfixRules.Proofs.Validation

/-!
# What the stack represents

At any time of reading, the stack represents exactly the tokens taken so far. Each slot stands for a
row of them, a plain word for itself and a tree for the words that the grammar derives it from, and
the rows of the slots, bottom first, make up the tokens in their order. The depth that a tree
carries is its own, and within the limit, so that no deeper tree is ever built.
-/

namespace PostfixRules

/-- The rows of tokens that a slot stands for. -/
inductive StandsFor : Slot → List Token → Prop where
  | pending {token : Token} (hword : token.text ∉ operatorWords) :
    StandsFor (.pending token) [token]
  | built {row : List Token} {expr : Expr} (hrow : Derives (row.map Token.text) expr) :
    StandsFor (.built expr expr.depth) row

/-- A stack that represents the tokens taken so far. -/
structure Represents (stack : List Slot) (taken : List Token) : Prop where
  /-- A plain word adds a slot, and an operator takes one away. -/
  length : (stack.length : Int) = operandSurplus (taken.map Token.text)
  /-- No token is lost, repeated or moved. -/
  rows : ∃ rows, List.Forall₂ StandsFor stack.reverse rows ∧ rows.flatten = taken
  pending : ∀ token, .pending token ∈ stack → token ∈ taken ∧ token.text ∉ operatorWords
  built : ∀ expr depth, .built expr depth ∈ stack → depth = expr.depth ∧ depth ≤ 100
  /-- A field is a word that was taken and is no literal of another kind, and a number is finite. -/
  leaves : ∀ expr depth, .built expr depth ∈ stack → ∀ comparison ∈ expr.comparisons,
    comparison.field ∈ taken.map Token.text ∧
      (Literal.resolve comparison.field).isString = true ∧ comparison.value.IsFinite

/-! ## Derivations -/

/-- A word denotes no infinite number. -/
theorem Literal.isFinite_resolve (word : String) : (resolve word).IsFinite := by
  rcases resolve_cases word with ⟨x, -, hx⟩ | ⟨b, hb⟩ | hs
  · rw [hx]
    exact rfl
  · rw [hb]
    trivial
  · rw [hs]
    trivial

namespace Derives

variable {words : List String} {expr : Expr}

theorem depth_le (h : Derives words expr) : expr.depth ≤ 100 := by
  cases h with
  | comparison => simp [Expr.depth]
  | logical operator hleft hright hdepth => exact hdepth

/-- The comparisons of a tree have words of its row for fields, and values that words denote. -/
theorem comparisons (h : Derives words expr) : ∀ comparison ∈ expr.comparisons,
    comparison.field ∈ words ∧ (Literal.resolve comparison.field).isString = true ∧
      comparison.value.IsFinite := by
  induction h with
  | @comparison field value operator hfield hvalue htext =>
    intro comparison hmem
    rw [Expr.comparisons, List.mem_singleton] at hmem
    subst hmem
    exact ⟨by simp, htext, Literal.isFinite_resolve value⟩
  | @logical left right l r operator hleft hright hdepth ihl ihr =>
    intro comparison hmem
    rw [Expr.comparisons, List.mem_append] at hmem
    rcases hmem with hmem | hmem
    · obtain ⟨hfield, hrest⟩ := ihl comparison hmem
      exact ⟨by simp [hfield], hrest⟩
    · obtain ⟨hfield, hrest⟩ := ihr comparison hmem
      exact ⟨by simp [hfield], hrest⟩

end Derives

/-! ## Runs -/

namespace MadeOf

variable {stack : List Slot} {tokens : List Token}

/-- The rows of the slots make up the tokens. -/
theorem exists_rows (h : MadeOf stack tokens) :
    ∃ rows, List.Forall₂ StandsFor stack.reverse rows ∧ rows.flatten = tokens := by
  induction h with
  | empty => exact ⟨[], .nil, rfl⟩
  | @pending stack tokens token hbelow hword ih =>
    obtain ⟨rows, hrows, rfl⟩ := ih
    refine ⟨rows ++ [[token]], ?_, by simp⟩
    rw [List.reverse_cons]
    exact List.rel_append hrows (.cons (.pending hword) .nil)
  | @built stack tokens piece expr hbelow hpiece ih =>
    obtain ⟨rows, hrows, rfl⟩ := ih
    refine ⟨rows ++ [piece], ?_, by simp⟩
    rw [List.reverse_cons]
    exact List.rel_append hrows (.cons (.built hpiece) .nil)

/-- Each slot stands for tokens among those that the stack is made of. -/
theorem exists_row_of_mem (h : MadeOf stack tokens) {slot : Slot} (hslot : slot ∈ stack) :
    ∃ row, StandsFor slot row ∧ row ⊆ tokens := by
  induction h with
  | empty => cases hslot
  | @pending stack tokens token hbelow hword ih =>
    rcases List.mem_cons.mp hslot with rfl | hslot
    · exact ⟨[token], .pending hword, List.subset_append_right tokens [token]⟩
    · obtain ⟨row, hrow, hsubset⟩ := ih hslot
      exact ⟨row, hrow, List.subset_append_of_subset_left _ hsubset⟩
  | @built stack tokens piece expr hbelow hpiece ih =>
    rcases List.mem_cons.mp hslot with rfl | hslot
    · exact ⟨piece, .built hpiece, List.subset_append_right tokens piece⟩
    · obtain ⟨row, hrow, hsubset⟩ := ih hslot
      exact ⟨row, hrow, List.subset_append_of_subset_left _ hsubset⟩

theorem represents (h : MadeOf stack tokens) : Represents stack tokens where
  length := h.length_eq
  rows := h.exists_rows
  pending := by
    intro token hmem
    obtain ⟨row, hrow, hsubset⟩ := h.exists_row_of_mem hmem
    cases hrow with
    | pending hword => exact ⟨hsubset List.mem_cons_self, hword⟩
  built := by
    intro expr depth hmem
    obtain ⟨row, hrow, -⟩ := h.exists_row_of_mem hmem
    cases hrow with
    | built hrow => exact ⟨rfl, hrow.depth_le⟩
  leaves := by
    intro expr depth hmem comparison hcomparison
    obtain ⟨row, hrow, hsubset⟩ := h.exists_row_of_mem hmem
    cases hrow with
    | built hrow =>
      obtain ⟨hfield, hrest⟩ := hrow.comparisons comparison hcomparison
      exact ⟨List.map_subset _ hsubset hfield, hrest⟩

/-- Taking tokens without an error leaves a stack that is made of them and of those before. -/
theorem run {taken : List Token} {b b' : Builder} (h : MadeOf b.stack tokens)
    (hrun : taken.foldlM Builder.push b = .ok b') : MadeOf b'.stack (tokens ++ taken) := by
  induction taken generalizing b tokens with
  | nil =>
    cases hrun
    rw [List.append_nil]
    exact h
  | cons token rest ih =>
    rw [List.foldlM_cons] at hrun
    obtain ⟨next, hpush, hrest⟩ := Outcome.bind_eq_ok_iff.mp hrun
    have hnext := h.step (Builder.push_eq_ok_iff.mp hpush).1
    rw [List.append_cons]
    exact ih hnext hrest

end MadeOf

/-- Whatever tokens have been taken without an error, the stack represents them. -/
theorem represents_of_run {taken : List Token} {b : Builder}
    (h : taken.foldlM Builder.push Builder.start = .ok b) : Represents b.stack taken :=
  (MadeOf.run (b := Builder.start) .empty h).represents

/-- Words that are not empty make no field empty. -/
theorem Represents.field_ne_empty {stack : List Slot} {taken : List Token}
    (h : Represents stack taken) (hwords : ∀ token ∈ taken, token.text ≠ "") {expr : Expr}
    {depth : Nat} (hmem : .built expr depth ∈ stack) {comparison : Comparison}
    (hcomparison : comparison ∈ expr.comparisons) : comparison.field ≠ "" := by
  obtain ⟨token, htoken, hfield⟩ :=
    List.mem_map.mp (h.leaves expr depth hmem comparison hcomparison).1
  rw [← hfield]
  exact hwords token htoken

/-- After any tokens that have been taken without an error, the first ones of a row or all of them,
the stack represents these tokens. No tree on it has an empty field if no token is empty, and no
token of a text is. -/
theorem stack_represents_taken :
    (∀ (tokens taken : List Token) (b : Builder), taken <+: tokens →
      taken.foldlM Builder.push Builder.start = .ok b → Represents b.stack taken) ∧
    (∀ (tokens taken : List Token) (b : Builder), (∀ token ∈ tokens, token.text ≠ "") →
      taken <+: tokens → taken.foldlM Builder.push Builder.start = .ok b →
      ∀ expr depth, .built expr depth ∈ b.stack → ∀ comparison ∈ expr.comparisons,
        comparison.field ≠ "") ∧
    ∀ (text : String) (tokens : List Token), tokenize text = .ok tokens →
      ∀ token ∈ tokens, token.text ≠ "" := by
  refine ⟨fun _ _ _ _ hrun => represents_of_run hrun, ?_,
    fun _ _ htokens _ htoken => (Token.isWord_of_tokenize htokens htoken).1⟩
  intro tokens taken b hwords hfirst hrun expr depth hmem comparison hcomparison
  have htaken : ∀ token ∈ taken, token.text ≠ "" := fun token htoken =>
    hwords token (hfirst.subset htoken)
  exact (represents_of_run hrun).field_ne_empty htaken hmem hcomparison

/-- In the middle of a text, a tree and a word that no operator has taken yet are on the stack. -/
theorem stack_represents_taken_midway :
    let tokens : List Token := [⟨"a", 1⟩, ⟨"1", 2⟩, ⟨">", 3⟩, ⟨"b", 4⟩, ⟨"2", 5⟩]
    let taken : List Token := [⟨"a", 1⟩, ⟨"1", 2⟩, ⟨">", 3⟩, ⟨"b", 4⟩]
    let compared := Expr.comparison .greater "a" (Literal.resolve "1")
    let stack : List Slot := [.pending ⟨"b", 4⟩, .built compared 1]
    tokenize "a 1 > b 2" = .ok tokens ∧ taken <+: tokens ∧
      taken.foldlM Builder.push Builder.start = .ok ⟨stack, 4⟩ ∧ Represents stack taken ∧
      ∀ comparison ∈ compared.comparisons, comparison.field ≠ "" := by
  intro tokens taken compared stack
  have htokens : tokenize "a 1 > b 2" = .ok tokens := by decide +kernel
  have hfirst : taken <+: tokens := ⟨[⟨"2", 5⟩], rfl⟩
  have hrun : taken.foldlM Builder.push Builder.start = .ok ⟨stack, 4⟩ := by decide +kernel
  obtain ⟨hrepresents, hfields, hwords⟩ := stack_represents_taken
  have hmem : .built compared 1 ∈ stack := by simp [stack]
  exact ⟨htokens, hfirst, hrun, hrepresents tokens taken _ hfirst hrun,
    hfields tokens taken _ (hwords _ tokens htokens) hfirst hrun compared 1 hmem⟩

end PostfixRules
