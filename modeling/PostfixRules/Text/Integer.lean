import PostfixRules.Number.Power

/-!
# Whole numbers in decimal text

Digits are the ASCII digits. A signed or unsigned whole number may start with `+`; nothing else
may surround its digits, of which there is at least one.
-/

namespace PostfixRules.Text

/-- The value of a decimal digit. -/
def digitValue (c : Char) : Nat :=
  c.toNat - 48

/-- The digit of a value below ten. -/
def digitChar (n : Nat) : Char :=
  Char.ofNat (48 + n)

/-- The value of a hexadecimal digit of either case. -/
def hexValue? (c : Char) : Option Nat :=
  if '0' ≤ c ∧ c ≤ '9' then some (c.toNat - 48)
  else if 'a' ≤ c ∧ c ≤ 'f' then some (c.toNat - 87)
  else if 'A' ≤ c ∧ c ≤ 'F' then some (c.toNat - 55)
  else none

/-- The number that a row of digits denotes, most significant first. -/
def natOfDigits (digits : List Char) : Nat :=
  digits.foldl (fun n c => 10 * n + digitValue c) 0

/-- The decimal digits of a number, without leading zeros. -/
def decimal (n : Nat) : List Char :=
  if n < 10 then [digitChar n] else decimal (n / 10) ++ [digitChar (n % 10)]

/-- Read a non-empty row of digits and nothing else. -/
def digits? (chars : List Char) : Option Nat :=
  if chars.isEmpty || !chars.all Char.isDigit then none else some (natOfDigits chars)

/-- Keep a number only below a bound. -/
def below (bound : Nat) (n : Nat) : Option Nat :=
  if n < bound then some n else none

/-- Read an unsigned whole number below `bound`; a leading `+` is allowed. -/
def unsigned? (bound : Nat) : List Char → Option Nat
  | '+' :: rest => (digits? rest).bind (below bound)
  | chars => (digits? chars).bind (below bound)

/-- Read a signed whole number of 64 bits; a leading `+` or `-` is allowed. -/
def signed64? : List Char → Option Int
  | '-' :: rest =>
    (digits? rest).bind fun n => (below (2 ^ (63 : Nat) + 1) n).map fun m => -(m : Int)
  | chars => (unsigned? (2 ^ (63 : Nat)) chars).map Int.ofNat

/-- The decimal text of a natural number. -/
def natText (n : Nat) : String :=
  String.ofList (decimal n)

/-- The decimal digits of an integer, after a minus sign when it is negative. -/
def signedDecimal (i : Int) : List Char :=
  if i < 0 then '-' :: decimal i.natAbs else decimal i.natAbs

end PostfixRules.Text
