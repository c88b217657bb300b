import PostfixRules.Text.Blank
import PostfixRules.Text.Integer
import PostfixRules.Time.Timestamp

/-!
# Instants as text

Instants are written `YYYY-MM-DDTHH:MM:SSZ`, with 0, 3, 6 or 9 digits of a second, whichever is
the shortest that is exact. Reading accepts any offset from universal time and is lenient about
blanks and about the number of digits of each part.
-/

namespace PostfixRules.Timestamp

/-- The earliest and the latest year of a readable date. -/
def yearRange : Int × Int := (-262143, 262142)

/-- Put zeros in front of digits until they fill a width. -/
def padded (width n : Nat) : List Char :=
  let digits := Text.decimal n
  List.replicate (width - digits.length) '0' ++ digits

/-- The text of a year: four digits from 0 to 9999, else a sign and at least four digits. -/
def yearText (year : Int) : List Char :=
  if 0 ≤ year ∧ year ≤ 9999 then padded 4 year.natAbs
  else (if year < 0 then '-' else '+') :: padded 4 year.natAbs

/-- The text of the part of a second, with a point, or nothing for a full second. -/
def fractionText (nanos : Nat) : List Char :=
  if nanos = 0 then []
  else if nanos % 1000000 = 0 then '.' :: padded 3 (nanos / 1000000)
  else if nanos % 1000 = 0 then '.' :: padded 6 (nanos / 1000)
  else '.' :: padded 9 nanos

/-- The text of an instant. A leap second is second 60 of its minute. -/
def chars (t : Timestamp) : List Char :=
  let date := Date.ofDays (t.seconds / 86400)
  let second := (t.seconds % 86400).toNat
  let extra := t.nanos / nanosPerSecond
  yearText date.year ++ '-' :: padded 2 date.month ++ '-' :: padded 2 date.day ++
    'T' :: padded 2 (second / 3600) ++ ':' :: padded 2 (second / 60 % 60) ++
    ':' :: padded 2 (second % 60 + extra) ++ fractionText (t.nanos % nanosPerSecond) ++ ['Z']

/-- The text of an instant. -/
def text (t : Timestamp) : String :=
  String.ofList t.chars

/-- Pass over blanks. -/
def skipBlanks (chars : List Char) : List Char :=
  chars.dropWhile Text.isBlank

/-- Read at least one digit and no more than `most`. -/
def takeDigits? (most : Nat) (chars : List Char) : Option (Nat × List Char) :=
  let digits := (chars.take most).takeWhile Char.isDigit
  if digits.isEmpty then none else some (Text.natOfDigits digits, chars.drop digits.length)

/-- Read a number of at most two digits after blanks. -/
def takePart? (chars : List Char) : Option (Nat × List Char) :=
  takeDigits? 2 (skipBlanks chars)

/-- Read a year after blanks: at most four digits, or any number of digits after a sign. -/
def takeYear? (chars : List Char) : Option (Int × List Char) :=
  match skipBlanks chars with
  | '-' :: rest => (takeDigits? rest.length rest).map fun (n, rest) => (-(n : Int), rest)
  | '+' :: rest => (takeDigits? rest.length rest).map fun (n, rest) => ((n : Int), rest)
  | rest => (takeDigits? 4 rest).map fun (n, rest) => ((n : Int), rest)

/-- Read a mark after blanks. -/
def takeMark? (mark : Char) (chars : List Char) : Option (List Char) :=
  match skipBlanks chars with
  | c :: rest => if c = mark then some rest else none
  | [] => none

/-- Read a date. -/
def takeDate? (chars : List Char) : Option (Date × List Char) := do
  let (year, rest) ← takeYear? chars
  let (month, rest) ← takePart? (← takeMark? '-' rest)
  let (day, rest) ← takePart? (← takeMark? '-' rest)
  let date : Date := ⟨year, month, day⟩
  if date.isValid ∧ yearRange.1 ≤ year ∧ year ≤ yearRange.2 then some (date, rest) else none

/-- Read the part of a second as nanoseconds: a point and at least one digit, of which the first
nine count, or nothing. -/
def takeFraction? : List Char → Option (Nat × List Char)
  | '.' :: rest =>
    let digits := (rest.take 9).takeWhile Char.isDigit
    if digits.isEmpty then none
    else some (Text.natOfDigits digits * 10 ^ (9 - digits.length), rest.dropWhile Char.isDigit)
  | chars => some (0, chars)

/-- Read a time of day as seconds and nanoseconds. Second 60 is a leap second. -/
def takeTime? (chars : List Char) : Option ((Nat × Nat) × List Char) := do
  let (hour, rest) ← takePart? chars
  let (minute, rest) ← takePart? (← takeMark? ':' rest)
  let (second, rest) ← takePart? (← takeMark? ':' rest)
  let (nanos, rest) ← takeFraction? rest
  if hour ≤ 23 ∧ minute ≤ 59 ∧ second ≤ 60 then
    let leap := second / 60
    some ((hour * 3600 + minute * 60 + (second - leap), nanos + leap * nanosPerSecond), rest)
  else none

/-- Read the hours and minutes of an offset as seconds; colons and blanks may stand between
them. -/
def takeOffsetParts? : List Char → Option (Nat × List Char)
  | h₁ :: h₂ :: rest =>
    match rest.dropWhile fun c => c = ':' || Text.isBlank c with
    | m₁ :: m₂ :: rest =>
      if h₁.isDigit && h₂.isDigit && m₁.isDigit && m₂.isDigit && decide (m₁ ≤ '5') then
        some (Text.natOfDigits [h₁, h₂] * 3600 + Text.natOfDigits [m₁, m₂] * 60, rest)
      else none
    | _ => none
  | _ => none

/-- Read an offset from universal time in seconds: `Z` or `UTC` of either case, or a sign with
hours and minutes. -/
def takeOffset? (chars : List Char) : Option (Int × List Char) :=
  match chars with
  | 'Z' :: rest | 'z' :: rest => some (0, rest)
  | '+' :: rest => (takeOffsetParts? rest).map fun (n, rest) => ((n : Int), rest)
  | '-' :: rest | '−' :: rest => (takeOffsetParts? rest).map fun (n, rest) => (-(n : Int), rest)
  | u :: t :: c :: rest =>
    if u.toLower = 'u' ∧ t.toLower = 't' ∧ c.toLower = 'c' then some (0, rest) else none
  | _ => none

/-- Read the separator between date and time. -/
def takeSeparator? : List Char → Option (List Char)
  | 't' :: rest | 'T' :: rest | ' ' :: rest => some rest
  | _ => none

/-- Read an instant. The offset must be less than a day and the instant within the readable
years. -/
def read? (text : String) : Option Timestamp := do
  let (date, rest) ← takeDate? text.toList
  let ((second, nanos), rest) ← takeTime? (← takeSeparator? rest)
  let (offset, rest) ← takeOffset? (skipBlanks rest)
  if (skipBlanks rest).isEmpty ∧ offset.natAbs < 86400 then
    let seconds := date.toDays * 86400 + (second : Int) - offset
    let year := (Date.ofDays (seconds / 86400)).year
    if yearRange.1 ≤ year ∧ year ≤ yearRange.2 then ofParts? seconds nanos else none
  else none

end PostfixRules.Timestamp
