/-!
# Blanks and words

A blank is a character of Unicode's `White_Space` property. The words of a text are its maximal
runs of characters that are not blank, from left to right.
-/

namespace PostfixRules.Text

/-- The characters of Unicode's `White_Space` property, and no others. -/
def isBlank (c : Char) : Bool :=
  let n := c.toNat
  (0x09 ≤ n && n ≤ 0x0D) || n == 0x20 || n == 0x85 || n == 0xA0 || n == 0x1680 ||
    (0x2000 ≤ n && n ≤ 0x200A) || n == 0x2028 || n == 0x2029 || n == 0x202F || n == 0x205F ||
    n == 0x3000

/-- A text with nothing to read in it; the empty text is one. -/
def allBlank (text : String) : Bool :=
  text.toList.all isBlank

/-- Put a finished run, held in reverse, on top of the words found so far; an empty run is no
word. -/
def closeWord (found : List (List Char)) (run : List Char) : List (List Char) :=
  if run.isEmpty then found else run.reverse :: found

/-- Cut the remaining characters into words. Both the words found so far and the run being read
are held in reverse, so that a long text needs no deep recursion. -/
def cutWords (found : List (List Char)) (run : List Char) : List Char → List (List Char)
  | [] => (closeWord found run).reverse
  | c :: rest =>
    if isBlank c then cutWords (closeWord found run) [] rest else cutWords found (c :: run) rest

/-- The words of a text in order. -/
def words (text : String) : List String :=
  (cutWords [] [] text.toList).map String.ofList

end PostfixRules.Text
