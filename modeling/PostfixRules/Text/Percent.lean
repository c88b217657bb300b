import PostfixRules.Text.ByteOrder

/-!
# Percent-decoding

A percent sign with two hexadecimal digits after it stands for a byte. A percent sign without them
stands for itself, as every other character does. The bytes must form UTF-8.
-/

namespace PostfixRules.Text

/-- The value of a byte that is a hexadecimal digit of either case. -/
def hexByte? (b : UInt8) : Option UInt8 :=
  if 48 ≤ b ∧ b ≤ 57 then some (b - 48)
  else if 97 ≤ b ∧ b ≤ 102 then some (b - 87)
  else if 65 ≤ b ∧ b ≤ 70 then some (b - 55)
  else none

/-- The bytes that percent-encoded bytes stand for. -/
def percentBytes : List UInt8 → List UInt8
  | [] => []
  | 37 :: high :: low :: rest =>
    match hexByte? high, hexByte? low with
    | some h, some l => (16 * h + l) :: percentBytes rest
    | _, _ => 37 :: percentBytes (high :: low :: rest)
  | b :: rest => b :: percentBytes rest
termination_by bytes => bytes.length

/-- The text that a percent-encoded text stands for, if its bytes form UTF-8. -/
def percentDecode? (text : String) : Option String :=
  String.fromUTF8? (ByteArray.mk (percentBytes (utf8 text)).toArray)

end PostfixRules.Text
