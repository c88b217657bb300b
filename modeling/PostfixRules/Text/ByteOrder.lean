/-!
# The order of texts

Texts are ordered by the bytes of their UTF-8 form, the first difference deciding and a proper
beginning coming first.
-/

namespace PostfixRules.Text

/-- The bytes of a text in UTF-8. -/
def utf8 (text : String) : List UInt8 :=
  text.toList.flatMap String.utf8EncodeChar

/-- Dictionary order of byte sequences. -/
def compareBytes : List UInt8 → List UInt8 → Ordering
  | [], [] => .eq
  | [], _ :: _ => .lt
  | _ :: _, [] => .gt
  | a :: as, b :: bs => (compare a b).then (compareBytes as bs)

/-- The order of two texts by their UTF-8 bytes. -/
def byteOrder (a b : String) : Ordering :=
  compareBytes (utf8 a) (utf8 b)

/-- The non-strict form of the byte order, as sorting needs it. -/
def byteLe (a b : String) : Bool :=
  byteOrder a b != .gt

end PostfixRules.Text
