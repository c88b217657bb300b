import PostfixRules.Number.Shortest

/-!
# Text of a number

Two layouts of the shortest decimal are used. Plain text never has a power of ten, so that it is
a row of digits with at most one point. JSON text keeps a fraction on whole numbers and turns to
powers of ten for very large and very small magnitudes.
-/

namespace PostfixRules

/-- How a decimal is laid out. -/
structure NumberStyle where
  /-- Which of two equally near shortest decimals is written. -/
  tie : Tie
  /-- Whether a number whose leading digit stands for this power of ten is written without a power
  of ten. -/
  positional : Int → Bool
  /-- What follows the digits of a whole number. -/
  wholeMark : List Char

namespace NumberStyle

/-- The layout of numbers in messages and rule text: digits only, and a half goes up. -/
def plain : NumberStyle :=
  ⟨.up, fun _ => true, []⟩

/-- The layout of numbers in JSON text: positional from `10 ^ -5` below `10 ^ 16`, always with a
fraction, and a half goes to the even digit. -/
def json : NumberStyle :=
  ⟨.even, fun power => decide (-5 ≤ power) && decide (power ≤ 15), ['.', '0']⟩

/-- Digits with a point put in, or zeros put on, where the exponent asks for them. -/
def positionalText (wholeMark digits : List Char) : Int → List Char
  | .ofNat e => digits ++ List.replicate e '0' ++ wholeMark
  | .negSucc k =>
    let places := k + 1
    if places < digits.length then
      digits.take (digits.length - places) ++ '.' :: digits.drop (digits.length - places)
    else '0' :: '.' :: (List.replicate (places - digits.length) '0' ++ digits)

/-- One digit, a point and the others if there are any, and the power of ten with its sign. -/
def scientificText (digits : List Char) (power : Int) : List Char :=
  let head := digits.take 1
  let tail := digits.drop 1
  let sign := if power < 0 then '-' else '+'
  head ++ (if tail.isEmpty then [] else '.' :: tail) ++ 'e' :: sign :: Text.decimal power.natAbs

/-- The layout of a decimal. -/
def layout (style : NumberStyle) (d : Decimal) : List Char :=
  let digits := Text.decimal d.digits
  let power := d.exponent + (digits.length : Int) - 1
  let body :=
    if style.positional power then positionalText style.wholeMark digits d.exponent
    else scientificText digits power
  if d.negative then '-' :: body else body

end NumberStyle

/-- The text of a finite number in a style. -/
def Finite.text (style : NumberStyle) (x : Finite) : List Char :=
  style.layout (x.shortest style.tie)

/-- The plain text of a double. -/
def Double.plainText : Double → String
  | .finite x => String.ofList (x.text .plain)
  | .infinity negative => if negative then "-inf" else "inf"
  | .nan => "NaN"

end PostfixRules
