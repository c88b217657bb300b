import PostfixRules.Text.Integer

/-!
# Quoted texts of a TOML document

A text stands between single quotes as it is, and between double quotes with escapes. Between three
quotes of either sort it may go over several lines; up to two quotes may then stand directly before
the closing ones, and a line break directly after the opening ones does not count.
-/

namespace PostfixRules.Toml

/-- What the reading of an escaped text is in the middle of. -/
inductive QuotedState where
  | plain
  /-- After a backslash. -/
  | escape
  /-- In an escape that gives a character by number, with so many digits still to come. -/
  | number (left value : Nat)
  /-- After a backslash at the end of a line, where blanks are passed over; the line break itself
  may still be to come. -/
  | fold (broken : Bool)
  deriving DecidableEq, Repr

/-- Reading goes on in a state with the text so far, last character first, or the text is finished
and so many further characters belong to the closing quotes. -/
inductive QuotedStep where
  | more (state : QuotedState) (reversed : List Char)
  | done (reversed : List Char) (closing : Nat)

/-- Take a quote in a text over several lines. Fewer than three in a row are part of the text; of
more, the last three close it. -/
def takeQuote (quote : Char) (reversed rest : List Char) : QuotedStep :=
  let following := (rest.takeWhile (· == quote)).length
  if following < 2 then .more .plain (quote :: reversed)
  else
    let extra := min (following - 2) 2
    .done (List.replicate extra quote ++ reversed) (extra + 2)

/-- Take a character that is not part of an escape. -/
def stepPlain? (lines : Bool) (reversed : List Char) (c : Char) (rest : List Char) :
    Option QuotedStep :=
  if c = '"' then some (if lines then takeQuote '"' reversed rest else .done reversed 0)
  else if c = '\\' then some (.more .escape reversed)
  else if c = '\n' && !lines then none
  else some (.more .plain (c :: reversed))

/-- Take the character after a backslash. -/
def stepEscape? (lines : Bool) (reversed : List Char) (c : Char) : Option QuotedStep :=
  let text (e : Char) : Option QuotedStep := some (.more .plain (e :: reversed))
  match c with
  | '"' => text '"'
  | '\\' => text '\\'
  | 'b' => text '\x08'
  | 'e' => text '\x1b'
  | 'f' => text '\x0c'
  | 'n' => text '\n'
  | 'r' => text '\r'
  | 't' => text '\t'
  | 'x' => some (.more (.number 2 0) reversed)
  | 'u' => some (.more (.number 4 0) reversed)
  | 'U' => some (.more (.number 8 0) reversed)
  | ' ' | '\t' => if lines then some (.more (.fold false) reversed) else none
  | '\n' => if lines then some (.more (.fold true) reversed) else none
  | _ => none

/-- Take a digit of the number of a character; only numbers of characters are allowed. -/
def stepNumber? (reversed : List Char) (left value : Nat) (c : Char) : Option QuotedStep :=
  (Text.hexValue? c).bind fun digit =>
    let value := 16 * value + digit
    if 1 < left then some (.more (.number (left - 1) value) reversed)
    else if value.isValidChar then some (.more .plain (Char.ofNat value :: reversed))
    else none

/-- Take one character. -/
def stepQuoted? (lines : Bool) (state : QuotedState) (reversed : List Char) (c : Char)
    (rest : List Char) : Option QuotedStep :=
  match state with
  | .plain => stepPlain? lines reversed c rest
  | .escape => stepEscape? lines reversed c
  | .number left value => stepNumber? reversed left value c
  | .fold broken =>
    if c = ' ' ∨ c = '\t' then some (.more (.fold broken) reversed)
    else if c = '\n' then some (.more (.fold true) reversed)
    else if broken then stepPlain? lines reversed c rest
    else none

/-- Read a text with escapes up to its closing quotes. -/
def escapedText? (lines : Bool) (state : QuotedState) (reversed : List Char) :
    List Char → Option (String × List Char)
  | [] => none
  | c :: rest =>
    match stepQuoted? lines state reversed c rest with
    | some (.more state reversed) => escapedText? lines state reversed rest
    | some (.done reversed closing) => some (String.ofList reversed.reverse, rest.drop closing)
    | none => none

/-- Read a text without escapes on one line. -/
def literalText? (chars : List Char) : Option (String × List Char) :=
  let inside := chars.takeWhile fun c => c != '\'' && c != '\n'
  match chars.drop inside.length with
  | '\'' :: rest => some (String.ofList inside, rest)
  | _ => none

/-- Read a text without escapes over several lines. -/
def literalLines? (reversed : List Char) : List Char → Option (String × List Char)
  | [] => none
  | c :: rest =>
    if c = '\'' then
      match takeQuote '\'' reversed rest with
      | .more _ reversed => literalLines? reversed rest
      | .done reversed closing => some (String.ofList reversed.reverse, rest.drop closing)
    else literalLines? (c :: reversed) rest

/-- Pass over a line break. -/
def skipBreak : List Char → List Char
  | '\n' :: rest => rest
  | chars => chars

/-- Read a quoted text of one line. -/
def quotedLine? : List Char → Option (String × List Char)
  | '"' :: rest => escapedText? false .plain [] rest
  | '\'' :: rest => literalText? rest
  | _ => none

/-- Read a quoted text of any sort. -/
def quoted? : List Char → Option (String × List Char)
  | '"' :: '"' :: '"' :: rest => escapedText? true .plain [] (skipBreak rest)
  | '\'' :: '\'' :: '\'' :: rest => literalLines? [] (skipBreak rest)
  | chars => quotedLine? chars

end PostfixRules.Toml
