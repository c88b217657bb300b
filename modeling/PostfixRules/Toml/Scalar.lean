import PostfixRules.Number.Decimal
import PostfixRules.Settings.Value
import PostfixRules.Text.Segments
import PostfixRules.Time.Calendar

/-!
# Plain values of a TOML document

A plain value is a truth value, a whole number of 64 bits, a finite or special double, or a date, a
time or both. Dates and times are kept as text. Underscores may stand between the digits of a
number.
-/

namespace PostfixRules.Toml

/-- The characters that plain values consist of. -/
def isWordChar (c : Char) : Bool :=
  c.isAlphanum || c == '_' || c == '+' || c == '-' || c == '.' || c == ':'

/-- Drop the underscores of a number, each of which must stand between two digits. -/
def ungroup? (isDigit : Char → Bool) : List Char → Option (List Char)
  | [] => some []
  | [c] => if c = '_' then none else some [c]
  | [a, b] => if a = '_' ∨ b = '_' then none else some [a, b]
  | a :: b :: c :: rest =>
    if b = '_' then
      if isDigit a && isDigit c then (ungroup? isDigit (c :: rest)).map (a :: ·) else none
    else if a = '_' then none
    else (ungroup? isDigit (b :: c :: rest)).map (a :: ·)

/-- Read a row of digits of a base; its value must fit a signed word of 64 bits. -/
def based? (base : Nat) (chars : List Char) : Option Int :=
  let digit? (c : Char) : Option Nat := (Text.hexValue? c).filter (· < base)
  (ungroup? (fun c => (digit? c).isSome) chars).bind fun digits =>
    if digits.isEmpty then none
    else (digits.mapM digit?).bind fun values =>
      (Text.below (2 ^ (63 : Nat)) (values.foldl (fun n d => base * n + d) 0)).map Int.ofNat

/-- Whether a row of digits is not empty and has no zero in front of another digit. -/
def isPlainRow : List Char → Bool
  | [] => false
  | [_] => true
  | c :: _ => c != '0'

/-- Read a whole number. -/
def integer? : List Char → Option Int
  | '0' :: 'x' :: rest => based? 16 rest
  | '0' :: 'o' :: rest => based? 8 rest
  | '0' :: 'b' :: rest => based? 2 rest
  | chars =>
    (ungroup? Char.isDigit chars).bind fun chars =>
      if isPlainRow (Decimal.splitSign chars).2 then Text.signed64? chars else none

/-- Read a double: it has a point or a power of ten, the point has digits on both sides, and the
number must be finite unless it is written as infinity or as not-a-number. -/
def float? (chars : List Char) : Option Double :=
  let (negative, body) := Decimal.splitSign chars
  if body = ['i', 'n', 'f'] then some (.infinity negative)
  else if body = ['n', 'a', 'n'] then some .nan
  else (ungroup? Char.isDigit body).bind fun body =>
    let rest := body.dropWhile Char.isDigit
    let pointed :=
      match rest with
      | '.' :: c :: _ => c.isDigit
      | [] | ['.'] => false
      | _ => true
    if isPlainRow (body.takeWhile Char.isDigit) && pointed then
      ((Decimal.ofUnsigned? negative body).map Decimal.toDouble).filter Double.isFinite
    else none

/-- Read a number of two digits below a bound, and keep its digits. -/
def takePair? (bound : Nat) : List Char → Option (List Char × List Char)
  | a :: b :: rest =>
    if a.isDigit && b.isDigit && decide (Text.natOfDigits [a, b] < bound) then some ([a, b], rest)
    else none
  | _ => none

/-- Read a date, and keep its text. -/
def takeDate? : List Char → Option (List Char × List Char)
  | y₁ :: y₂ :: y₃ :: y₄ :: '-' :: m₁ :: m₂ :: '-' :: d₁ :: d₂ :: rest =>
    let year := [y₁, y₂, y₃, y₄]
    let text := year ++ '-' :: m₁ :: m₂ :: '-' :: [d₁, d₂]
    let date : Date :=
      ⟨(Text.natOfDigits year : Int), Text.natOfDigits [m₁, m₂], Text.natOfDigits [d₁, d₂]⟩
    if (year ++ [m₁, m₂, d₁, d₂]).all Char.isDigit && date.isValid then some (text, rest) else none
  | _ => none

/-- The part of a second with a point, of which nine digits count and zeros at the end do not. -/
def fractionOf (digits : List Char) : List Char :=
  let kept := ((digits.take 9).reverse.dropWhile (· == '0')).reverse
  if kept.isEmpty then [] else '.' :: kept

/-- Read the seconds of a time, which may be left out, and keep their text. -/
def takeSeconds? : List Char → Option (List Char × List Char)
  | ':' :: rest =>
    (takePair? 61 rest).bind fun (second, rest) =>
      match rest with
      | '.' :: rest =>
        let digits := rest.takeWhile Char.isDigit
        if digits.isEmpty then none
        else some (':' :: second ++ fractionOf digits, rest.drop digits.length)
      | rest => some (':' :: second, rest)
  | rest => some (':' :: '0' :: ['0'], rest)

/-- Read a time of day, and keep its text. -/
def takeTime? (chars : List Char) : Option (List Char × List Char) := do
  let (hour, rest) ← takePair? 24 chars
  match rest with
  | ':' :: rest =>
    let (minute, rest) ← takePair? 60 rest
    let (seconds, rest) ← takeSeconds? rest
    some (hour ++ ':' :: minute ++ seconds, rest)
  | _ => none

/-- Read what may follow a date with a time: an offset from universal time. -/
def offset? : List Char → Option (List Char)
  | [] => some []
  | ['Z'] | ['z'] => some ['Z']
  | sign :: rest =>
    if sign = '+' ∨ sign = '-' then do
      let (hour, rest) ← takePair? 24 rest
      match rest with
      | ':' :: rest =>
        let (minute, rest) ← takePair? 60 rest
        if rest.isEmpty then some (sign :: hour ++ ':' :: minute) else none
      | _ => none
    else none

/-- Read what may follow a date: a time, perhaps with an offset. -/
def dateRest? : List Char → Option (List Char)
  | [] => some []
  | c :: rest =>
    if c = 'T' ∨ c = 't' ∨ c = ' ' then
      (takeTime? rest).bind fun (time, rest) =>
        (offset? rest).map fun offset => 'T' :: time ++ offset
    else none

/-- Read a date, a time or both as text. -/
def moment? (chars : List Char) : Option String :=
  match takeDate? chars with
  | some (date, rest) => (dateRest? rest).map fun rest => String.ofList (date ++ rest)
  | none =>
    match takeTime? chars with
    | some (time, []) => some (String.ofList time)
    | _ => none

/-- The value that a word is. -/
def ofWord? (word : List Char) : Option Setting :=
  if word = ['t', 'r', 'u', 'e'] then some (.flag true)
  else if word = ['f', 'a', 'l', 's', 'e'] then some (.flag false)
  else match integer? word with
    | some i => some (.whole i)
    | none =>
      match float? word with
      | some x => some (.real x)
      | none => (moment? word).map .text

/-- The length of the word at the beginning. A date may be followed by a blank and a time. -/
def wordLength (chars : List Char) : Nat :=
  let first := (chars.takeWhile isWordChar).length
  match chars.drop first with
  | ' ' :: c :: rest =>
    if (takeDate? (chars.take first)).any (fun found => found.2.isEmpty) && c.isDigit then
      first + 1 + ((c :: rest).takeWhile isWordChar).length
    else first
  | _ => first

/-- Read a plain value. -/
def scalar? (chars : List Char) : Option (Setting × List Char) :=
  let length := wordLength chars
  (ofWord? (chars.take length)).map fun value => (value, chars.drop length)

end PostfixRules.Toml
