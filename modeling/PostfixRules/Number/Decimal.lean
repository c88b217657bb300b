import PostfixRules.Number.Double
import PostfixRules.Text.Integer

/-!
# Decimal numbers

A decimal is a signed whole number times a power of ten. Reading accepts an optional sign,
digits with at most one point among, before or after them, and an optional power of ten; no
other character may occur. A decimal names the double nearest to its value.
-/

namespace PostfixRules

/-- The value `± digits * 10 ^ exponent`. -/
structure Decimal where
  negative : Bool
  digits : Nat
  exponent : Int
  deriving DecidableEq, Repr

namespace Decimal

/-- The double nearest to a decimal, ties to even. Exponents so large or so small that the
answer is an infinity or a zero whatever the digits are decided without computing the power of
ten: `10 ^ 400` is beyond every finite number, and `digits < 2 ^ (log2 digits + 1)` while
`2 ^ (3 * e) ≤ 10 ^ e`. -/
def toDouble (d : Decimal) : Double :=
  if d.digits = 0 then .finite (Finite.zero d.negative)
  else match d.exponent with
    | .ofNat e =>
      if 400 < e then .infinity d.negative else Double.ofRatio d.negative (d.digits * 10 ^ e) 1
    | .negSucc k =>
      if d.digits.log2 + 1081 < 3 * (k + 1) then .finite (Finite.zero d.negative)
      else Double.ofRatio d.negative d.digits (10 ^ (k + 1))

/-- Split off a sign. -/
def splitSign : List Char → Bool × List Char
  | '-' :: rest => (true, rest)
  | '+' :: rest => (false, rest)
  | chars => (false, chars)

/-- Split off a point and the digits after it. -/
def splitFraction : List Char → List Char × List Char
  | '.' :: rest => (rest.takeWhile Char.isDigit, rest.dropWhile Char.isDigit)
  | chars => ([], chars)

/-- Read the power of ten that ends a decimal: nothing at all, or a letter `e` of either case, an
optional sign and at least one digit. -/
def exponent? : List Char → Option Int
  | [] => some 0
  | c :: rest =>
    if c = 'e' ∨ c = 'E' then
      let (negative, digits) := splitSign rest
      (Text.digits? digits).map fun n => if negative then -(n : Int) else (n : Int)
    else none

/-- Read an unsigned decimal, given its sign. -/
def ofUnsigned? (negative : Bool) (chars : List Char) : Option Decimal :=
  let whole := chars.takeWhile Char.isDigit
  let (fraction, rest) := splitFraction (chars.dropWhile Char.isDigit)
  if whole.isEmpty && fraction.isEmpty then none
  else (exponent? rest).map fun e =>
    ⟨negative, Text.natOfDigits (whole ++ fraction), e - (fraction.length : Int)⟩

/-- Read a decimal. -/
def read? (chars : List Char) : Option Decimal :=
  let (negative, body) := splitSign chars
  ofUnsigned? negative body

end Decimal

/-- Read a double: a decimal, or one of the words `inf`, `infinity` and `nan` in any case, with an
optional sign. -/
def Double.read? (chars : List Char) : Option Double :=
  let (negative, body) := Decimal.splitSign chars
  let word := String.ofList (body.map Char.toLower)
  if word = "inf" ∨ word = "infinity" then some (.infinity negative)
  else if word = "nan" then some .nan
  else (Decimal.ofUnsigned? negative body).map Decimal.toDouble

end PostfixRules
