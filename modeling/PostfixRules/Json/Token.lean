import PostfixRules.Json.Basic
import PostfixRules.Number.Decimal

/-!
# JSON tokens

A JSON document is cut into tokens character by character. A text whose escapes denote half of a
surrogate pair, and a number beyond every finite double, are tokens without a value: whether they
are an error depends on whether the value is wanted. Any other lexical error is the token `fault`,
after which nothing more is read.
-/

namespace PostfixRules.Json

/-- A piece of a JSON document. -/
inductive Token where
  | openBrace
  | closeBrace
  | openBracket
  | closeBracket
  | comma
  | colon
  | null
  | bool (value : Bool)
  /-- A quoted text; without a value if it holds a lone surrogate. -/
  | string (value : Option String)
  /-- A number; without a value if it is out of range. -/
  | number (value : Option Number)
  /-- The place of a lexical error. -/
  | fault
  deriving DecidableEq, Repr

/-- A quoted text in progress. -/
structure Quoted where
  /-- The characters so far, last first. -/
  reversed : List Char
  /-- A leading surrogate that waits for its partner. -/
  leading : Option Nat
  /-- Whether every surrogate so far has found its partner. -/
  sound : Bool
  deriving DecidableEq, Repr

namespace Quoted

/-- The beginning of a quoted text. -/
def start : Quoted :=
  ⟨[], none, true⟩

/-- Add a character; a leading surrogate before it has no partner. -/
def push (q : Quoted) (c : Char) : Quoted :=
  ⟨c :: q.reversed, none, q.sound && q.leading.isNone⟩

/-- Add an escaped code unit. A trailing surrogate completes the leading one before it. -/
def pushUnit (q : Quoted) (unit : Nat) : Quoted :=
  if 0xD800 ≤ unit ∧ unit < 0xDC00 then
    { q with leading := some unit, sound := q.sound && q.leading.isNone }
  else if 0xDC00 ≤ unit ∧ unit < 0xE000 then
    match q.leading with
    | some high =>
      let code := 0x10000 + (high - 0xD800) * 0x400 + (unit - 0xDC00)
      { q with reversed := Char.ofNat code :: q.reversed, leading := none }
    | none => { q with sound := false }
  else q.push (Char.ofNat unit)

/-- The finished text, if every surrogate has its partner. -/
def finish (q : Quoted) : Option String :=
  if q.sound && q.leading.isNone then some (String.ofList q.reversed.reverse) else none

end Quoted

/-- The character that a one-letter escape stands for. -/
def escaped? : Char → Option Char
  | '"' => some '"'
  | '\\' => some '\\'
  | '/' => some '/'
  | 'b' => some '\x08'
  | 'f' => some '\x0c'
  | 'n' => some '\n'
  | 'r' => some '\r'
  | 't' => some '\t'
  | _ => none

/-- How far the reading of a number has come. -/
inductive NumberPhase where
  /-- After a minus sign. -/
  | sign
  /-- After a leading zero. -/
  | zero
  | integer
  /-- After the point. -/
  | point
  | fraction
  /-- After the letter of the power of ten. -/
  | mark
  /-- After the sign of the power of ten. -/
  | markSign
  | power
  deriving DecidableEq, Repr

namespace NumberPhase

/-- Whether a number may end here. -/
def isComplete : NumberPhase → Bool
  | .zero | .integer | .fraction | .power => true
  | .sign | .point | .mark | .markSign => false

/-- The phase after one more character, if the character continues the number. -/
def next? : NumberPhase → Char → Option NumberPhase
  | .sign, c => if c = '0' then some .zero else if c.isDigit then some .integer else none
  | .zero, c =>
    if c = '.' then some .point else if c = 'e' ∨ c = 'E' then some .mark else none
  | .integer, c =>
    if c.isDigit then some .integer else if c = '.' then some .point
    else if c = 'e' ∨ c = 'E' then some .mark else none
  | .point, c => if c.isDigit then some .fraction else none
  | .fraction, c =>
    if c.isDigit then some .fraction else if c = 'e' ∨ c = 'E' then some .mark else none
  | .mark, c =>
    if c.isDigit then some .power else if c = '+' ∨ c = '-' then some .markSign else none
  | .markSign, c => if c.isDigit then some .power else none
  | .power, c => if c.isDigit then some .power else none

end NumberPhase

/-- The number that a decimal names as a double, if it is finite. The decimal is rounded once, to
the nearest double. A reader that scales the digits in doubles rounds twice and may come out one
step away, at `2.9999999999999997e23` for `3e23`; that is not modelled. -/
def floatNumber? (chars : List Char) : Option Number :=
  ((Decimal.read? chars).bind fun d => d.toDouble.finite?).map .float

/-- The number that a row of characters of the number grammar denotes. Whole numbers of 64 bits
are kept exactly; minus zero and everything else is a double. -/
def numberOf? (chars : List Char) : Option Number :=
  let (negative, digits) := Decimal.splitSign chars
  match Text.digits? digits with
  | some n =>
    let value : Int := if negative then -(n : Int) else (n : Int)
    match Whole.ofInt? value with
    | some w => if negative && n == 0 then some (.float (Finite.zero true)) else some (.whole w)
    | none => floatNumber? chars
  | none => floatNumber? chars

/-- What the scanner is in the middle of. -/
inductive ScanState where
  | between
  /-- A fixed word of which these letters are still to come. -/
  | word (letters : List Char) (token : Token)
  /-- A number with these characters so far, last first. -/
  | number (phase : NumberPhase) (reversed : List Char)
  | quoted (text : Quoted)
  /-- After a backslash. -/
  | escape (text : Quoted)
  /-- In an escape that gives a code unit, with so many digits still to come. -/
  | codeUnit (text : Quoted) (left : Nat) (value : Nat)
  /-- After a lexical error. -/
  | failed
  deriving DecidableEq, Repr

/-- The scanner: what it is in the middle of, and the finished tokens, last first. -/
structure Scanner where
  state : ScanState
  reversed : List Token
  deriving DecidableEq, Repr

namespace Scanner

/-- Finish a token. -/
def emit (s : Scanner) (token : Token) : Scanner :=
  ⟨.between, token :: s.reversed⟩

/-- Stop at a lexical error. -/
def fail (s : Scanner) : Scanner :=
  ⟨.failed, .fault :: s.reversed⟩

/-- Take the first character of a token, or a blank between tokens. -/
def stepBetween (s : Scanner) (c : Char) : Scanner :=
  match c with
  | ' ' | '\t' | '\n' | '\r' => ⟨.between, s.reversed⟩
  | '\x7b' => s.emit .openBrace
  | '\x7d' => s.emit .closeBrace
  | '[' => s.emit .openBracket
  | ']' => s.emit .closeBracket
  | ',' => s.emit .comma
  | ':' => s.emit .colon
  | '"' => ⟨.quoted .start, s.reversed⟩
  | 'n' => ⟨.word ['u', 'l', 'l'] .null, s.reversed⟩
  | 't' => ⟨.word ['r', 'u', 'e'] (.bool true), s.reversed⟩
  | 'f' => ⟨.word ['a', 'l', 's', 'e'] (.bool false), s.reversed⟩
  | '-' => ⟨.number .sign ['-'], s.reversed⟩
  | '0' => ⟨.number .zero ['0'], s.reversed⟩
  | c => if c.isDigit then ⟨.number .integer [c], s.reversed⟩ else s.fail

/-- Take the next letter of a fixed word. -/
def stepWord (s : Scanner) (letters : List Char) (token : Token) (c : Char) : Scanner :=
  match letters with
  | [l] => if c = l then s.emit token else s.fail
  | l :: rest => if c = l then ⟨.word rest token, s.reversed⟩ else s.fail
  | [] => s.fail

/-- Take a character after a number: it continues the number, or the number is complete and the
character begins something else. A digit after a leading zero is an error. -/
def stepNumber (s : Scanner) (phase : NumberPhase) (reversed : List Char) (c : Char) : Scanner :=
  match phase.next? c with
  | some next => ⟨.number next (c :: reversed), s.reversed⟩
  | none =>
    if phase.isComplete && !(phase == .zero && c.isDigit) then
      (s.emit (.number (numberOf? reversed.reverse))).stepBetween c
    else s.fail

/-- Take a character of a quoted text. Control characters must be escaped. -/
def stepQuoted (s : Scanner) (text : Quoted) (c : Char) : Scanner :=
  if c = '"' then s.emit (.string text.finish)
  else if c = '\\' then ⟨.escape text, s.reversed⟩
  else if c.toNat < 0x20 then s.fail
  else ⟨.quoted (text.push c), s.reversed⟩

/-- Take the character after a backslash. -/
def stepEscape (s : Scanner) (text : Quoted) (c : Char) : Scanner :=
  if c = 'u' then ⟨.codeUnit text 4 0, s.reversed⟩
  else match escaped? c with
    | some e => ⟨.quoted (text.push e), s.reversed⟩
    | none => s.fail

/-- Take a digit of a code unit. -/
def stepCodeUnit (s : Scanner) (text : Quoted) (left value : Nat) (c : Char) : Scanner :=
  match Text.hexValue? c with
  | some v =>
    if left ≤ 1 then ⟨.quoted (text.pushUnit (16 * value + v)), s.reversed⟩
    else ⟨.codeUnit text (left - 1) (16 * value + v), s.reversed⟩
  | none => s.fail

/-- Take one character. -/
def step (s : Scanner) (c : Char) : Scanner :=
  match s.state with
  | .between => s.stepBetween c
  | .word letters token => s.stepWord letters token c
  | .number phase reversed => s.stepNumber phase reversed c
  | .quoted text => s.stepQuoted text c
  | .escape text => s.stepEscape text c
  | .codeUnit text left value => s.stepCodeUnit text left value c
  | .failed => s

/-- The tokens once the document has ended; a token that is not complete is an error. -/
def finish (s : Scanner) : List Token :=
  match s.state with
  | .between | .failed => s.reversed.reverse
  | .number phase reversed =>
    if phase.isComplete then (s.emit (.number (numberOf? reversed.reverse))).reversed.reverse
    else s.fail.reversed.reverse
  | .word _ _ | .quoted _ | .escape _ | .codeUnit _ _ _ => s.fail.reversed.reverse

end Scanner

/-- The tokens of a document. -/
def scan (document : List Char) : List Token :=
  (document.foldl Scanner.step ⟨.between, []⟩).finish

end PostfixRules.Json
