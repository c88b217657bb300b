import PostfixRules.Proofs.Combination.Text
import PostfixRules.Proofs.Reading.Stack

/-!
# The tokens of a text

The tokens of rule text are its maximal runs of characters that are not blank, numbered from one.
Maximal runs can be told without cutting the text: blanks are passed over, and a run ends only
before a blank or at the end of the text. The blanks themselves leave no trace in the runs, so texts
that differ in nothing but white space are read alike.
-/

namespace PostfixRules

namespace Text

/-! ## Maximal runs -/

/-- The maximal runs of characters of a text that are not blank, from left to right. -/
inductive HasRuns : List Char → List String → Prop where
  /-- There is no run in a text of blanks. -/
  | none {gap : List Char} (hgap : ∀ c ∈ gap, isBlank c = true) : HasRuns gap []
  /-- The first run begins after the first blanks and ends before the next one. -/
  | run {gap rest : List Char} {word : String} {words : List String}
    (hgap : ∀ c ∈ gap, isBlank c = true) (hword : IsWord word)
    (hend : ∀ c ∈ rest.head?, isBlank c = true) (hrest : HasRuns rest words) :
    HasRuns (gap ++ word.toList ++ rest) (word :: words)

namespace HasRuns

variable {chars : List Char} {words : List String}

/-- A blank in front is passed over. -/
theorem cons_blank (h : HasRuns chars words) {c : Char} (hc : isBlank c = true) :
    HasRuns (c :: chars) words := by
  cases h with
  | none hgap => exact .none (List.forall_mem_cons.mpr ⟨hc, hgap⟩)
  | run hgap hword hend hrest =>
    have hrun := HasRuns.run (List.forall_mem_cons.mpr ⟨hc, hgap⟩) hword hend hrest
    exact hrun

/-- A character that is not blank is a run of its own if a blank comes next. -/
theorem cons_begin (h : HasRuns chars words) {c : Char} (hc : isBlank c = false)
    (hend : ∀ d ∈ chars.head?, isBlank d = true) :
    HasRuns (c :: chars) (String.ofList [c] :: words) := by
  have hword : IsWord (String.ofList [c]) := ⟨by simp [← String.toList_inj], by simpa using hc⟩
  have hnone : ∀ d ∈ ([] : List Char), isBlank d = true := List.forall_mem_nil _
  simpa using HasRuns.run hnone hword hend h

/-- A character that is not blank begins a run, or goes in front of one. -/
theorem exists_cons (h : HasRuns chars words) {c : Char} (hc : isBlank c = false) :
    ∃ words', HasRuns (c :: chars) words' := by
  have hbegin := h.cons_begin hc
  cases h with
  | none hgap =>
    exact ⟨_, hbegin fun d hd => hgap d (List.mem_of_head? hd)⟩
  | @run gap rest word words hgap hword hend hrest =>
    cases gap with
    | nil =>
      have hlonger : IsWord (String.ofList (c :: word.toList)) := by
        refine ⟨by simp [← String.toList_inj], ?_⟩
        rw [String.toList_ofList]
        exact List.forall_mem_cons.mpr ⟨hc, hword.2⟩
      have hrun := HasRuns.run hgap hlonger hend hrest
      rw [String.toList_ofList] at hrun
      exact ⟨_, hrun⟩
    | cons b gap =>
      exact ⟨_, hbegin fun d hd => hgap d (by simp_all)⟩

/-- Every text has its runs. -/
theorem exists_of_chars (chars : List Char) : ∃ words, HasRuns chars words := by
  induction chars with
  | nil => exact ⟨[], .none (List.forall_mem_nil _)⟩
  | cons c rest ih =>
    obtain ⟨words, h⟩ := ih
    cases hc : isBlank c with
    | true => exact ⟨words, h.cons_blank hc⟩
    | false => exact h.exists_cons hc

end HasRuns

/-- Nothing but blanks makes no pieces that are kept. -/
theorem filter_splitOnP_of_blanks {gap : List Char} (h : ∀ c ∈ gap, isBlank c = true) :
    (gap.splitOnP isBlank).filter (fun piece => !piece.isEmpty) = [] := by
  have hnone := filter_splitOnP_append h []
  rw [List.append_nil, List.splitOnP_nil] at hnone
  exact hnone

/-- A run makes a piece of its own if it ends before a blank or at the end of the text. -/
theorem filter_splitOnP_run {word : String} (hword : IsWord word) {rest : List Char}
    (hend : ∀ c ∈ rest.head?, isBlank c = true) :
    ((word.toList ++ rest).splitOnP isBlank).filter (fun piece => !piece.isEmpty) =
      word.toList :: (rest.splitOnP isBlank).filter fun piece => !piece.isEmpty := by
  have hne : word.toList ≠ [] := fun he => hword.1 (String.toList_eq_nil_iff.mp he)
  have hkept : [word.toList].filter (fun piece => !piece.isEmpty) = [word.toList] :=
    List.filter_cons_of_pos (by simpa using hne)
  cases rest with
  | nil =>
    rw [List.append_nil, List.splitOnP_eq_singleton hword.2, hkept]
    rfl
  | cons c rest =>
    have hc : isBlank c = true := hend c rfl
    have hgap : ∀ d ∈ [c], isBlank d = true := by simpa using hc
    have hrest := filter_splitOnP_append hgap rest
    rw [List.singleton_append] at hrest
    rw [List.splitOnP_append_cons _ _ hc, List.splitOnP_eq_singleton hword.2, List.filter_append,
      hkept, hrest]
    rfl

/-- The scan finds the runs of a text. -/
theorem words_eq_iff_hasRuns {text : String} {words : List String} :
    Text.words text = words ↔ HasRuns text.toList words := by
  have hfinds {words : List String} (h : HasRuns text.toList words) : Text.words text = words := by
    rw [words_eq]
    generalize text.toList = chars at h
    induction h with
    | none hgap => rw [filter_splitOnP_of_blanks hgap, List.map_nil]
    | run hgap hword hend hrest ih =>
      rw [List.append_assoc, filter_splitOnP_append hgap, filter_splitOnP_run hword hend,
        List.map_cons, ih, String.ofList_toList]
  refine ⟨?_, hfinds⟩
  rintro rfl
  obtain ⟨words, h⟩ := HasRuns.exists_of_chars text.toList
  rw [hfinds h]
  exact h

/-- The runs of a text make up the text without its blanks. -/
theorem HasRuns.flatMap_toList {chars : List Char} {words : List String} (h : HasRuns chars words) :
    words.flatMap String.toList = chars.filter fun c => !isBlank c := by
  have hblanks {gap : List Char} (hgap : ∀ c ∈ gap, isBlank c = true) :
      gap.filter (fun c => !isBlank c) = [] := by
    rw [List.filter_eq_nil_iff]
    intro c hc
    simp [hgap c hc]
  induction h with
  | none hgap => exact (hblanks hgap).symm
  | @run gap rest word words hgap hword hend hrest ih =>
    have hkept : word.toList.filter (fun c => !isBlank c) = word.toList := by
      rw [List.filter_eq_self]
      intro c hc
      simp [hword.2 c hc]
    rw [List.filter_append, List.filter_append, hblanks hgap, hkept, List.flatMap_cons, ih]
    rfl

/-- A text has no runs exactly if all its characters are blank. -/
theorem words_eq_nil_iff {text : String} : words text = [] ↔ allBlank text = true := by
  rw [words_eq_iff_hasRuns, allBlank, List.all_eq_true]
  refine ⟨fun h => ?_, .none⟩
  generalize text.toList = chars at h ⊢
  cases h with
  | none hgap => exact hgap

end Text

/-! ## Tokens -/

/-- The same token further on in a row of tokens. -/
def Token.shift (count : Nat) (token : Token) : Token :=
  { token with position := token.position + count }

theorem Token.map_position_number (position : Nat) (words : List String) :
    (number position words).map Token.position = List.range' position words.length := by
  rw [number, List.map_map]
  exact List.zipIdx_map_snd position words

theorem Token.number_cons (position : Nat) (word : String) (words : List String) :
    number position (word :: words) = ⟨word, position⟩ :: number (position + 1) words := rfl

/-- Counting from further on shifts the tokens. -/
theorem Token.number_add (position count : Nat) (words : List String) :
    number (position + count) words = (number position words).map (shift count) := by
  induction words generalizing position with
  | nil => rfl
  | cons word rest ih =>
    rw [number_cons, number_cons, List.map_cons, ← ih, Nat.add_right_comm]
    rfl

theorem Token.length_number (position : Nat) (words : List String) :
    (number position words).length = words.length := by
  rw [number, List.length_map, List.length_zipIdx]

/-- Tokens are numbered words exactly if their positions are one after the other. -/
theorem Token.eq_number_iff {tokens : List Token} {position : Nat} {words : List String} :
    tokens = number position words ↔ tokens.map text = words ∧
      tokens.map Token.position = List.range' position tokens.length := by
  constructor
  · rintro rfl
    rw [length_number]
    exact ⟨map_text_number position words, map_position_number position words⟩
  · rintro ⟨rfl, hpositions⟩
    induction tokens generalizing position with
    | nil => rfl
    | cons token rest ih =>
      rw [List.map_cons, List.length_cons, List.range'_succ] at hpositions
      obtain ⟨rfl, hrest⟩ := List.cons.inj hpositions
      rw [List.map_cons, number_cons, ← ih hrest]

theorem tokenize_of_no_words {text : String} (h : Text.words text = []) :
    tokenize text = .error .emptyInput := by
  rw [tokenize, h]
  rfl

/-- There are no tokens exactly in a text of blanks. -/
theorem tokenize_eq_error_iff {text : String} {e : RuleError} :
    tokenize text = .error e ↔ e = .emptyInput ∧ Text.allBlank text = true := by
  rw [← Text.words_eq_nil_iff]
  by_cases hwords : Text.words text = []
  · simp [tokenize_of_no_words hwords, hwords, eq_comm]
  · simp [tokenize_eq_ok hwords, hwords]

theorem tokenize_eq_ok_iff {text : String} {tokens : List Token} :
    tokenize text = .ok tokens ↔ tokens ≠ [] ∧ tokens = Token.number 1 (Text.words text) := by
  by_cases hwords : Text.words text = []
  · simp [tokenize_of_no_words hwords, hwords, Token.number]
  · have hne : Token.number 1 (Text.words text) ≠ [] := by
      intro hnil
      exact hwords (by rw [← Token.map_text_number 1 (Text.words text), hnil, List.map_nil])
    rw [tokenize_eq_ok hwords, Except.ok.injEq]
    constructor
    · rintro rfl
      exact ⟨hne, rfl⟩
    · rintro ⟨-, rfl⟩
      rfl

/-- The tokens of a text are its maximal runs, numbered from one, of which there is at least one. -/
theorem tokenize_eq_ok_iff_hasRuns {text : String} {tokens : List Token} :
    tokenize text = .ok tokens ↔ tokens ≠ [] ∧
      tokens.map Token.position = List.range' 1 tokens.length ∧
      Text.HasRuns text.toList (tokens.map Token.text) := by
  rw [tokenize_eq_ok_iff, Token.eq_number_iff, ← Text.words_eq_iff_hasRuns,
    eq_comm (b := tokens.map _), and_comm (a := tokens.map Token.text = _)]

/-- White space between two texts keeps their tokens apart. -/
theorem tokenize_append_gap {left gap right : String} (hgap : Text.IsGap gap)
    {tokens tokens' : List Token} (hleft : tokenize left = .ok tokens)
    (hright : tokenize right = .ok tokens') :
    tokenize (left ++ gap ++ right) =
      .ok (tokens ++ tokens'.map (Token.shift tokens.length)) := by
  obtain ⟨hne, rfl⟩ := tokenize_eq_ok_iff.mp hleft
  obtain ⟨-, rfl⟩ := tokenize_eq_ok_iff.mp hright
  refine tokenize_eq_ok_iff.mpr ⟨List.append_ne_nil_of_left_ne_nil hne _, ?_⟩
  rw [Text.words_append_gap hgap, Token.number_append, Token.length_number, Token.number_add]

/-- Texts that differ in nothing but white space are read alike. -/
theorem parse_eq_of_hasRuns {text text' : String} {words : List String}
    (h : Text.HasRuns text.toList words) (h' : Text.HasRuns text'.toList words) :
    parse text = parse text' := by
  have hwords : Text.words text = Text.words text' :=
    (Text.words_eq_iff_hasRuns.mpr h).trans (Text.words_eq_iff_hasRuns.mpr h').symm
  rw [parse, parse, tokenize, tokenize, hwords]

/-- Every token of a text is a word. -/
theorem Token.isWord_of_tokenize {text : String} {tokens : List Token}
    (h : tokenize text = .ok tokens) {token : Token} (htoken : token ∈ tokens) :
    Text.IsWord token.text := by
  obtain ⟨-, rfl⟩ := tokenize_eq_ok_iff.mp h
  have hmem := List.mem_map_of_mem (f := Token.text) htoken
  rw [map_text_number] at hmem
  exact Text.isWord_of_mem_words hmem

/-- A text has no tokens exactly if it is blank, and otherwise its tokens are its maximal runs,
numbered from one: they are words, and together they are the text without its blanks. White space
between two texts keeps their tokens apart, and nothing else in a text than its runs matters to
reading it. -/
theorem tokens_are_maximal_runs :
    (∀ (text : String) (e : RuleError),
      tokenize text = .error e ↔ e = .emptyInput ∧ Text.allBlank text = true) ∧
    (∀ (text : String) (tokens : List Token), tokenize text = .ok tokens ↔ tokens ≠ [] ∧
      tokens.map Token.position = List.range' 1 tokens.length ∧
      Text.HasRuns text.toList (tokens.map Token.text)) ∧
    (∀ (text : String) (tokens : List Token), tokenize text = .ok tokens →
      (∀ token ∈ tokens, Text.IsWord token.text) ∧
      (tokens.map Token.text).flatMap String.toList =
        text.toList.filter fun c => !Text.isBlank c) ∧
    (∀ (left gap right : String) (tokens tokens' : List Token), Text.IsGap gap →
      tokenize left = .ok tokens → tokenize right = .ok tokens' →
      tokenize (left ++ gap ++ right) =
        .ok (tokens ++ tokens'.map (Token.shift tokens.length))) ∧
    ∀ (text text' : String) (words : List String), Text.HasRuns text.toList words →
      Text.HasRuns text'.toList words → parse text = parse text' := by
  refine ⟨fun _ _ => tokenize_eq_error_iff, fun _ _ => tokenize_eq_ok_iff_hasRuns, ?_,
    fun _ _ _ _ _ hgap hleft hright => tokenize_append_gap hgap hleft hright,
    fun _ _ _ h h' => parse_eq_of_hasRuns h h'⟩
  intro text tokens h
  exact ⟨fun _ htoken => Token.isWord_of_tokenize h htoken,
    (tokenize_eq_ok_iff_hasRuns.mp h).2.2.flatMap_toList⟩

/-- Any two kinds of white space will do, also in front and at the end. -/
theorem tokens_are_maximal_runs_ideographic :
    Text.IsGap "\u3000\n" ∧ tokenize "\tage 30" = .ok [⟨"age", 1⟩, ⟨"30", 2⟩] ∧
      tokenize "> vip" = .ok [⟨">", 1⟩, ⟨"vip", 2⟩] ∧
      tokenize ("\tage 30" ++ "\u3000\n" ++ "> vip") =
        .ok [⟨"age", 1⟩, ⟨"30", 2⟩, ⟨">", 3⟩, ⟨"vip", 4⟩] ∧
      Text.HasRuns "age 30 >".toList ["age", "30", ">"] ∧
      Text.HasRuns "\u2029age\u00a030\u3000\u3000> ".toList ["age", "30", ">"] ∧
      parse "age 30 >" = parse "\u2029age\u00a030\u3000\u3000> " := by
  have hgap : Text.IsGap "\u3000\n" := ⟨by decide, List.all_eq_true.mp (by decide +kernel)⟩
  have hleft : tokenize "\tage 30" = .ok [⟨"age", 1⟩, ⟨"30", 2⟩] := by decide +kernel
  have hright : tokenize "> vip" = .ok [⟨">", 1⟩, ⟨"vip", 2⟩] := by decide +kernel
  have hruns : Text.HasRuns "age 30 >".toList ["age", "30", ">"] :=
    Text.words_eq_iff_hasRuns.mp (by decide +kernel)
  have hruns' : Text.HasRuns "\u2029age\u00a030\u3000\u3000> ".toList ["age", "30", ">"] :=
    Text.words_eq_iff_hasRuns.mp (by decide +kernel)
  obtain ⟨-, -, -, happend, hparse⟩ := tokens_are_maximal_runs
  exact ⟨hgap, hleft, hright, happend _ _ _ _ _ hgap hleft hright, hruns, hruns',
    hparse _ _ _ hruns hruns'⟩

end PostfixRules
