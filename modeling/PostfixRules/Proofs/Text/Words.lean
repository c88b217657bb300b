import PostfixRules.Text.Blank

/-!
# Cutting text into words

The accumulating scan is the split at every blank with the empty pieces left out. Words are
therefore never empty and hold no blank, a text without blanks is its own only word, and the words
of texts with white space between them are those of the first, then those of the second, and so on.
-/

namespace PostfixRules.Text

/-- A run of characters that could be a word: not empty and without blanks. -/
def IsWord (word : String) : Prop :=
  word ≠ "" ∧ ∀ c ∈ word.toList, isBlank c = false

instance (word : String) : Decidable (IsWord word) :=
  decidable_of_iff (word ≠ "" ∧ word.toList.all (fun c => !isBlank c) = true) (by
    simp only [IsWord, List.all_eq_true, Bool.not_eq_true'])

/-- Closing a run keeps it behind the words found before exactly if it is not empty. -/
theorem reverse_closeWord (found : List (List Char)) (run : List Char) :
    (closeWord found run).reverse =
      found.reverse ++ [run.reverse].filter fun piece => !piece.isEmpty := by
  cases run with
  | nil => simp [closeWord]
  | cons c run => simp [closeWord]

/-- The scan holds the finished words and the open run of the split at blanks. -/
theorem cutWords_eq_splitOnPPrepend (found : List (List Char)) (run chars : List Char) :
    cutWords found run chars =
      found.reverse ++ (chars.splitOnPPrepend isBlank run).filter fun piece => !piece.isEmpty := by
  induction chars generalizing found run with
  | nil => rw [cutWords, reverse_closeWord, List.splitOnPPrepend_nil]
  | cons c rest ih =>
    by_cases hc : isBlank c = true
    · rw [cutWords, if_pos hc, ih, reverse_closeWord, List.splitOnPPrepend_cons_pos hc,
        List.splitOnPPrepend_nil_right, List.append_assoc, ← List.filter_append,
        List.singleton_append]
    · rw [cutWords, if_neg hc, ih,
        List.splitOnPPrepend_cons_neg (Bool.eq_false_iff.mpr hc)]

/-- The words of a text are the pieces between its blanks that are not empty. -/
theorem words_eq (text : String) :
    words text = ((text.toList.splitOnP isBlank).filter fun piece => !piece.isEmpty).map
      String.ofList := by
  rw [words, cutWords_eq_splitOnPPrepend, List.splitOnPPrepend_nil_right, List.reverse_nil,
    List.nil_append]

/-- No piece of a split holds a character at which it is split. -/
theorem not_mem_of_mem_splitOnP {α : Type} {p : α → Bool} {chars piece : List α}
    (h : piece ∈ chars.splitOnP p) : ∀ c ∈ piece, p c = false := by
  induction chars generalizing piece with
  | nil =>
    have hp : piece = [] := by simpa only [List.splitOnP_nil, List.mem_singleton] using h
    simp only [hp, List.not_mem_nil, false_implies, implies_true]
  | cons a rest ih =>
    rw [List.splitOnP_cons_eq_if_modifyHead] at h
    split at h
    · rcases List.mem_cons.mp h with rfl | hr
      · simp only [List.not_mem_nil, false_implies, implies_true]
      · exact ih hr
    · rename_i ha
      cases hs : rest.splitOnP p with
      | nil => exact absurd hs (List.splitOnP_ne_nil p rest)
      | cons first others =>
        rw [hs, List.modifyHead_cons] at h
        rcases List.mem_cons.mp h with rfl | ho
        · intro c hc
          rcases List.mem_cons.mp hc with rfl | hf
          · exact Bool.eq_false_iff.mpr ha
          · exact ih (hs ▸ List.mem_cons_self) c hf
        · exact ih (hs ▸ List.mem_cons_of_mem first ho)

/-- Every word of a text is a word. -/
theorem isWord_of_mem_words {text word : String} (h : word ∈ words text) : IsWord word := by
  rw [words_eq, List.mem_map] at h
  obtain ⟨piece, hp, rfl⟩ := h
  rw [List.mem_filter] at hp
  constructor
  · intro he
    have hn : piece = [] := by simpa using congrArg String.toList he
    simp [hn] at hp
  · rw [String.toList_ofList]
    exact not_mem_of_mem_splitOnP hp.1

/-- A word on its own is a text of one word. -/
theorem words_of_isWord {word : String} (h : IsWord word) : words word = [word] := by
  have hne : word.toList ≠ [] := fun he => h.1 (String.toList_eq_nil_iff.mp he)
  rw [words_eq, List.splitOnP_eq_singleton h.2, List.filter_cons_of_pos (by simpa using hne),
    List.filter_nil, List.map_singleton, String.ofList_toList]

/-- White space between two texts: at least one blank and nothing else. -/
structure IsGap (gap : String) : Prop where
  ne_empty : gap ≠ ""
  isBlank : ∀ c ∈ gap.toList, Text.isBlank c = true

theorem isGap_space : IsGap " " where
  ne_empty := by decide
  isBlank := by
    intro c hc
    have hspace : c = ' ' := by simpa using hc
    rw [hspace]
    decide

/-- Blanks in front of a text make no further pieces that are kept. -/
theorem filter_splitOnP_append {gap : List Char} (h : ∀ c ∈ gap, isBlank c = true)
    (chars : List Char) :
    ((gap ++ chars).splitOnP isBlank).filter (fun piece => !piece.isEmpty) =
      (chars.splitOnP isBlank).filter fun piece => !piece.isEmpty := by
  induction gap with
  | nil => rfl
  | cons c rest ih =>
    have hblank := h c List.mem_cons_self
    have hsplit := List.splitOnP_append_cons (p := isBlank) [] (rest ++ chars) hblank
    rw [List.nil_append, List.splitOnP_nil] at hsplit
    rw [List.cons_append, hsplit, List.filter_append,
      ih fun c' hc' => h c' (List.mem_cons_of_mem c hc')]
    rfl

/-- White space between two texts keeps their words apart. -/
theorem words_append_gap {gap : String} (h : IsGap gap) (left right : String) :
    words (left ++ gap ++ right) = words left ++ words right := by
  have hne : gap.toList ≠ [] := fun he => h.ne_empty (String.toList_eq_nil_iff.mp he)
  obtain ⟨c, rest, hgap⟩ := List.exists_cons_of_ne_nil hne
  have hblank : ∀ c' ∈ c :: rest, isBlank c' = true := hgap ▸ h.isBlank
  have htext : (left ++ gap ++ right).toList = left.toList ++ c :: (rest ++ right.toList) := by
    rw [String.toList_append, String.toList_append, hgap, List.append_assoc, List.cons_append]
  rw [words_eq, htext, List.splitOnP_append_cons _ _ (hblank c List.mem_cons_self),
    List.filter_append, filter_splitOnP_append fun c' hc' => hblank c' (List.mem_cons_of_mem c hc'),
    List.map_append, ← words_eq, ← words_eq]

/-- A space between two texts keeps their words apart. -/
theorem words_append_space (left right : String) :
    words (left ++ " " ++ right) = words left ++ words right :=
  words_append_gap isGap_space left right

/-- The pieces stand in a text in this order, with white space between each two of them. -/
inductive Joined : List String → String → Prop where
  | single (piece : String) : Joined [piece] piece
  | cons (piece : String) {gap : String} (hgap : IsGap gap) {pieces : List String} {text : String}
      (hrest : Joined pieces text) : Joined (piece :: pieces) (piece ++ gap ++ text)

/-- Any pieces can be joined. -/
theorem exists_joined {pieces : List String} (h : pieces ≠ []) : ∃ text, Joined pieces text := by
  induction pieces with
  | nil => exact absurd rfl h
  | cons piece rest ih =>
    cases rest with
    | nil => exact ⟨piece, .single piece⟩
    | cons next others =>
      obtain ⟨text, hrest⟩ := ih (List.cons_ne_nil next others)
      exact ⟨_, .cons piece isGap_space hrest⟩

/-- The words of joined pieces are those of the first piece, then those of the second, and so on. -/
theorem Joined.words_eq {pieces : List String} {text : String} (h : Joined pieces text) :
    words text = pieces.flatMap words := by
  induction h with
  | single piece => rw [List.flatMap_singleton]
  | cons piece hgap hrest ih => rw [words_append_gap hgap, ih, List.flatMap_cons]

end PostfixRules.Text
