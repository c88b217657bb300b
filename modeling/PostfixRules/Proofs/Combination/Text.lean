import PostfixRules.Combination
import PostfixRules.Proofs.Canonical

/-!
# Combining texts is combining trees

In postfix notation trees are combined by writing their texts one after the other, with the operator
behind every text but the first. Reading such a text keeps the tree of what has been read so far as
the only slot of the stack: the words of the next text put its tree on top and leave that slot
alone, and the operator joins the two. This is the step by which combining goes on, with the same
limit on the depth, so that both end with the same tree or stop at the same text.
-/

namespace PostfixRules

/-- What is written to combine texts: the first text, then each other text and the operator. -/
def LogicalOperator.pieces (operator : LogicalOperator) : List String → List String
  | [] => []
  | first :: rest => first :: rest.flatMap fun next => [next, operator.word]

/-- The operator behind the text with this ordinal, counted from one, is the word of the whole text
at this position: before it stand the words of the texts so far and the operators between them. -/
def LogicalOperator.StandsAt (operator : LogicalOperator) (texts : List String) (whole : String)
    (ordinal position : Nat) : Prop :=
  ∃ (first : String) (passed : List String) (last : String) (remaining : List String)
    (before after : List Token),
    texts = first :: passed ++ last :: remaining ∧ ordinal = passed.length + 2 ∧
    tokenize whole = .ok (before ++ ⟨operator.word, position⟩ :: after) ∧
    before.map Token.text = (operator.pieces (first :: passed) ++ [last]).flatMap Text.words

/-! ## Words -/

theorem Text.words_operator (operator : LogicalOperator) :
    Text.words operator.word = [operator.word] :=
  Text.words_of_isWord (isWord_operatorWord operator.word_mem_operatorWords)

/-- The words that go on a combination: those of each further text and then the operator. -/
def LogicalOperator.furtherWords (operator : LogicalOperator) (rest : List String) : List String :=
  rest.flatMap fun next => Text.words next ++ [operator.word]

theorem LogicalOperator.words_pieces (operator : LogicalOperator) (first : String)
    (rest : List String) :
    (operator.pieces (first :: rest)).flatMap Text.words =
      Text.words first ++ operator.furtherWords rest := by
  rw [pieces, List.flatMap_cons, furtherWords, List.flatMap_assoc]
  simp only [List.flatMap_cons, List.flatMap_nil, List.append_nil, Text.words_operator]

/-- The tokens of the words that go on a combination are those of one text, the operator, and the
tokens of the words that go on from there. -/
theorem LogicalOperator.exists_of_furtherWords_cons {operator : LogicalOperator} {next : String}
    {rest : List String} {tokens : List Token}
    (h : tokens.map Token.text = operator.furtherWords (next :: rest)) :
    ∃ words joint further, tokens = words ++ joint :: further ∧
      words.map Token.text = Text.words next ∧ joint.text = operator.word ∧
      further.map Token.text = operator.furtherWords rest := by
  obtain ⟨both, further, rfl, hboth, hfurther⟩ := List.map_eq_append_iff.mp h
  obtain ⟨words, last, rfl, hwords, hlast⟩ := List.map_eq_append_iff.mp hboth
  obtain ⟨joint, none, rfl, hjoint, hnone⟩ := List.map_eq_cons_iff.mp hlast
  obtain rfl := List.map_eq_nil_iff.mp hnone
  exact ⟨words, joint, further, List.append_assoc _ _ _, hwords, hjoint, hfurther⟩

theorem tokenize_eq_ok {text : String} (h : Text.words text ≠ []) :
    tokenize text = .ok (Token.number 1 (Text.words text)) := by
  have hne : (Token.number 1 (Text.words text)).isEmpty = false := by
    rw [List.isEmpty_eq_false_iff]
    intro hnil
    apply h
    rw [← Token.map_text_number 1 (Text.words text), hnil, List.map_nil]
  simp only [tokenize, hne, Bool.false_eq_true, if_false]

/-! ## One more text -/

/-- Combining goes on by joining the next tree, unless the result is too deep. -/
theorem combineOnto_cons (operator : LogicalOperator) (combined next : Expr) (ordinal : Nat)
    (rest : List Expr) :
    combineOnto operator combined combined.depth ordinal (next :: rest) =
      if maxDepth < (Expr.logical operator combined next).depth then
        .error (.invalidNode (.combinedTooDeep ordinal (Expr.logical operator combined next).depth))
      else combineOnto operator (.logical operator combined next)
        (Expr.logical operator combined next).depth (ordinal + 1) rest := rfl

/-- The operator joins the two trees on the stack, unless the result is too deep. -/
theorem Builder.push_join {operator : LogicalOperator} {token : Token}
    (htoken : token.text = operator.word) (left right : Expr) (position : Nat) :
    Builder.push ⟨[.built right right.depth, .built left left.depth], position⟩ token =
      if maxDepth < (Expr.logical operator left right).depth then
        .error (.malformed (.tooDeep (Expr.logical operator left right).depth) token.position)
      else .ok ⟨[.built (.logical operator left right) (Expr.logical operator left right).depth],
        token.position⟩ := by
  have hdepth : 1 + max left.depth right.depth = (Expr.logical operator left right).depth := rfl
  simp only [push, react, htoken, LogicalOperator.ofWord?_word, reduceLogical, hdepth]
  by_cases hdeep : maxDepth < (Expr.logical operator left right).depth
  · simp only [if_pos hdeep, Except.map]
  · simp only [if_neg hdeep, Except.map]

/-- Reading goes on by joining the tree of the next words, unless the result is too deep. -/
theorem Derives.run_join {words : List String} {next : Expr} (h : Derives words next)
    {operator : LogicalOperator} {tokens : List Token} {token : Token}
    (htokens : tokens.map Token.text = words) (htoken : token.text = operator.word)
    (combined : Expr) (position : Nat) (rest : List Token) :
    (tokens ++ token :: rest).foldlM Builder.push ⟨[.built combined combined.depth], position⟩ =
      if maxDepth < (Expr.logical operator combined next).depth then
        .error (.malformed (.tooDeep (Expr.logical operator combined next).depth) token.position)
      else rest.foldlM Builder.push
        ⟨[.built (.logical operator combined next) (Expr.logical operator combined next).depth],
          token.position⟩ := by
  obtain ⟨last, hrun⟩ := h.run ⟨[.built combined combined.depth], position⟩ htokens
  rw [Builder.foldlM_push_append _ hrun, List.foldlM_cons, Builder.push_join htoken]
  split_ifs <;> rfl

/-! ## All further texts -/

/-- If the trees combine, the words of the further texts leave the combination on the stack. -/
theorem run_of_combineOnto_ok {operator : LogicalOperator} {rest : List String}
    {exprs : List Expr} (hparse : rest.map parse = exprs.map .ok) {combined expr : Expr}
    {ordinal : Nat}
    (hcombine : combineOnto operator combined combined.depth ordinal exprs = .ok expr)
    {tokens : List Token} (htokens : tokens.map Token.text = operator.furtherWords rest)
    (position : Nat) :
    ∃ position', tokens.foldlM Builder.push ⟨[.built combined combined.depth], position⟩ =
      .ok ⟨[.built expr expr.depth], position'⟩ := by
  induction rest generalizing exprs combined ordinal tokens position with
  | nil =>
    obtain rfl := List.map_eq_nil_iff.mp hparse.symm
    obtain rfl := List.map_eq_nil_iff.mp htokens
    cases hcombine
    exact ⟨position, rfl⟩
  | cons text rest ih =>
    obtain ⟨next, exprs, rfl, hnext, hexprs⟩ := List.map_eq_cons_iff.mp hparse.symm
    obtain ⟨words, token, further, rfl, hwords, htoken, hfurther⟩ :=
      LogicalOperator.exists_of_furtherWords_cons htokens
    rw [(parse_eq_ok_iff.mp hnext.symm).run_join hwords htoken]
    rw [combineOnto_cons] at hcombine
    split_ifs at hcombine ⊢ with hdeep
    exact ih hexprs.symm hcombine hfurther token.position

/-- If the trees do not combine, reading stops at the operator behind the text whose tree is too
many, for the same depth. -/
theorem run_of_combineOnto_error {operator : LogicalOperator} {rest : List String}
    {exprs : List Expr} (hparse : rest.map parse = exprs.map .ok) {combined : Expr} {ordinal : Nat}
    {e : RuleError}
    (hcombine : combineOnto operator combined combined.depth ordinal exprs = .error e)
    {tokens : List Token} (htokens : tokens.map Token.text = operator.furtherWords rest)
    (position : Nat) :
    ∃ (passed : List String) (last : String) (remaining : List String) (before : List Token)
      (joint : Token) (after : List Token) (depth : Nat),
      rest = passed ++ last :: remaining ∧ tokens = before ++ joint :: after ∧
      before.map Token.text = operator.furtherWords passed ++ Text.words last ∧
      joint.text = operator.word ∧
      e = .invalidNode (.combinedTooDeep (ordinal + passed.length) depth) ∧
      tokens.foldlM Builder.push ⟨[.built combined combined.depth], position⟩ =
        .error (.malformed (.tooDeep depth) joint.position) := by
  induction rest generalizing exprs combined ordinal tokens position with
  | nil =>
    obtain rfl := List.map_eq_nil_iff.mp hparse.symm
    cases hcombine
  | cons text rest ih =>
    obtain ⟨next, exprs, rfl, hnext, hexprs⟩ := List.map_eq_cons_iff.mp hparse.symm
    obtain ⟨words, token, further, rfl, hwords, htoken, hfurther⟩ :=
      LogicalOperator.exists_of_furtherWords_cons htokens
    have hrun := (parse_eq_ok_iff.mp hnext.symm).run_join hwords htoken combined position further
    rw [combineOnto_cons] at hcombine
    split_ifs at hcombine hrun with hdeep
    · cases hcombine
      exact ⟨[], text, rest, words, token, further, _, rfl, rfl, hwords, htoken, rfl, hrun⟩
    · obtain ⟨passed, last, remaining, before, joint, after, depth, rfl, rfl, hbefore, hword, he,
        herror⟩ := ih hexprs.symm hcombine hfurther token.position
      refine ⟨text :: passed, last, remaining, words ++ token :: before, joint, after, depth, rfl,
        ?_, ?_, hword, ?_, hrun.trans herror⟩
      · rw [List.append_assoc, List.cons_append]
      · rw [List.map_append, List.map_cons, hwords, htoken, hbefore]
        simp only [LogicalOperator.furtherWords, List.flatMap_cons, List.append_assoc,
          List.cons_append, List.nil_append]
      · rw [he, List.length_cons, Nat.add_assoc, Nat.add_comm 1]

/-! ## Whole texts -/

/-- A combination of texts is read by going on from the tree of the first one. -/
theorem exists_run_of_joined {operator : LogicalOperator} {first : String} {rest : List String}
    {expr : Expr} {whole : String} (hfirst : parse first = .ok expr)
    (hwhole : Text.Joined (operator.pieces (first :: rest)) whole) :
    ∃ (tokens further : List Token) (position : Nat),
      tokenize whole = .ok (tokens ++ further) ∧ tokens.map Token.text = Text.words first ∧
      further.map Token.text = operator.furtherWords rest ∧
      parse whole = (further.foldlM Builder.push ⟨[.built expr expr.depth], position⟩).bind
        Builder.finish := by
  have hderives := parse_eq_ok_iff.mp hfirst
  have hwords := hwhole.words_eq
  rw [operator.words_pieces] at hwords
  have hne : Text.words whole ≠ [] := by
    rw [hwords]
    exact List.append_ne_nil_of_left_ne_nil hderives.ne_nil _
  obtain ⟨tokens, further, hnumber, htokens, hfurther⟩ :=
    List.map_eq_append_iff.mp ((Token.map_text_number 1 _).trans hwords)
  have htokenize := tokenize_eq_ok hne
  rw [hnumber] at htokenize
  obtain ⟨position, hrun⟩ := hderives.run Builder.start htokens
  refine ⟨tokens, further, position, htokenize, htokens, hfurther, ?_⟩
  rw [parse, htokenize]
  change parseTokens (tokens ++ further) = _
  rw [parseTokens, Builder.foldlM_push_append _ hrun]
  rfl

/-- If the trees of texts combine, the joined text is read as the combination. -/
theorem parse_of_combine_ok {operator : LogicalOperator} {texts : List String}
    {exprs : List Expr} {whole : String} (hparse : texts.map parse = exprs.map .ok)
    (hwhole : Text.Joined (operator.pieces texts) whole) {expr : Expr}
    (hcombine : combine operator exprs = .ok expr) : parse whole = .ok expr := by
  cases texts with
  | nil => cases hwhole
  | cons first rest =>
    obtain ⟨start, exprs, rfl, hfirst, hrest⟩ := List.map_eq_cons_iff.mp hparse.symm
    obtain ⟨tokens, further, position, -, -, hfurther, hread⟩ :=
      exists_run_of_joined hfirst.symm hwhole
    obtain ⟨position', hrun⟩ := run_of_combineOnto_ok hrest.symm hcombine hfurther position
    rw [hread, hrun]
    rfl

/-- If the trees of texts do not combine, the joined text is not read, for the same depth and at the
operator behind the text at which combining fails. -/
theorem parse_of_combine_error {operator : LogicalOperator} {texts : List String}
    {exprs : List Expr} {whole : String} (hparse : texts.map parse = exprs.map .ok)
    (hwhole : Text.Joined (operator.pieces texts) whole) {e : RuleError}
    (hcombine : combine operator exprs = .error e) :
    ∃ ordinal depth position, e = .invalidNode (.combinedTooDeep ordinal depth) ∧
      operator.StandsAt texts whole ordinal position ∧
      parse whole = .error (.malformed (.tooDeep depth) position) := by
  cases texts with
  | nil => cases hwhole
  | cons first rest =>
    obtain ⟨start, exprs, rfl, hfirst, hrest⟩ := List.map_eq_cons_iff.mp hparse.symm
    obtain ⟨tokens, further, position, htokenize, htokens, hfurther, hread⟩ :=
      exists_run_of_joined hfirst.symm hwhole
    obtain ⟨passed, last, remaining, before, joint, after, depth, rfl, rfl, hbefore, hjoint, rfl,
      hrun⟩ := run_of_combineOnto_error hrest.symm hcombine hfurther position
    refine ⟨2 + passed.length, depth, joint.position, rfl, ?_, ?_⟩
    · refine ⟨first, passed, last, remaining, tokens ++ before, after, rfl, Nat.add_comm _ _,
        ?_, ?_⟩
      · rw [htokenize, ← hjoint, List.append_assoc]
      · rw [List.map_append, htokens, hbefore, List.flatMap_append, operator.words_pieces,
          List.flatMap_singleton, List.append_assoc]
    · rw [hread, hrun]
      rfl

/-- Texts that are rules by themselves, joined by white space with the operator behind every text
but the first, are read as the combination of their trees. Where the trees do not combine, reading
fails at the operator behind the text at which combining fails, and both name the same depth. -/
theorem parse_joined_iff_combine {operator : LogicalOperator} {texts : List String}
    {exprs : List Expr} {whole : String} (hparse : texts.map parse = exprs.map .ok)
    (hwhole : Text.Joined (operator.pieces texts) whole) :
    (∀ expr, parse whole = .ok expr ↔ combine operator exprs = .ok expr) ∧
    ∀ e, combine operator exprs = .error e → ∃ ordinal depth position,
      e = .invalidNode (.combinedTooDeep ordinal depth) ∧
      operator.StandsAt texts whole ordinal position ∧
      parse whole = .error (.malformed (.tooDeep depth) position) := by
  refine ⟨fun expr => ⟨?_, parse_of_combine_ok hparse hwhole⟩,
    fun e he => parse_of_combine_error hparse hwhole he⟩
  intro hread
  cases hcombine : combine operator exprs with
  | ok expr' => exact (parse_of_combine_ok hparse hwhole hcombine).symm.trans hread
  | error e =>
    obtain ⟨ordinal, depth, position, -, -, herror⟩ :=
      parse_of_combine_error hparse hwhole hcombine
    rw [herror] at hread
    cases hread

/-- A hundred comparisons are joined to a tree of the greatest depth; one more is too many for the
reader, at its operator, as it is for the combination. -/
theorem parse_joined_iff_combine_replicate :
    (∃ whole expr, Text.Joined (LogicalOperator.or.pieces (List.replicate 100 "a 1 =")) whole ∧
      parse whole = .ok expr ∧ expr.depth = maxDepth) ∧
    ∃ whole position, Text.Joined (LogicalOperator.or.pieces (List.replicate 101 "a 1 =")) whole ∧
      LogicalOperator.or.StandsAt (List.replicate 101 "a 1 =") whole 101 position ∧
      parse whole = .error (.malformed (.tooDeep 101) position) := by
  obtain ⟨leaf, hleaf⟩ : ∃ leaf, leaf = Expr.comparison .equal "a" (.number (Double.ofInt 1)) :=
    ⟨_, rfl⟩
  have hparse (n : Nat) :
      (List.replicate n "a 1 =").map parse = (List.replicate n leaf).map .ok := by
    have hread : parse "a 1 =" = .ok leaf := by
      rw [hleaf]
      decide +kernel
    rw [List.map_replicate, List.map_replicate, hread]
  constructor
  · have hne : LogicalOperator.or.pieces (List.replicate 100 "a 1 =") ≠ [] := List.cons_ne_nil _ _
    obtain ⟨whole, hwhole⟩ := Text.exists_joined hne
    have hcombine : combine .or (List.replicate 100 leaf) =
        .ok ((List.replicate 99 leaf).foldl (.logical .or) leaf) := by
      rw [hleaf]
      decide +kernel
    refine ⟨whole, _, hwhole,
      ((parse_joined_iff_combine (hparse 100) hwhole).1 _).mpr hcombine, ?_⟩
    rw [hleaf]
    decide +kernel
  · have hne : LogicalOperator.or.pieces (List.replicate 101 "a 1 =") ≠ [] := List.cons_ne_nil _ _
    obtain ⟨whole, hwhole⟩ := Text.exists_joined hne
    have hcombine : combine .or (List.replicate 101 leaf) =
        .error (.invalidNode (.combinedTooDeep 101 101)) := by
      rw [hleaf]
      decide +kernel
    obtain ⟨ordinal, depth, position, he, hplace, hread⟩ :=
      (parse_joined_iff_combine (hparse 101) hwhole).2 _ hcombine
    cases he
    exact ⟨whole, position, hwhole, hplace, hread⟩

end PostfixRules
