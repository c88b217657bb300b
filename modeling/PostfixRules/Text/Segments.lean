/-!
# Segments of a dotted text

A text is cut at every occurrence of a mark. There is always one segment more than there are
marks, so empty segments are kept and joining them again gives back the text.
-/

namespace PostfixRules.Text

/-- Put one character in front of the first segment, or open a new segment before it. -/
def extendSegments (mark : Char) (c : Char) : List (List Char) → List (List Char)
  | [] => if c = mark then [[], []] else [[c]]
  | first :: others => if c = mark then [] :: first :: others else (c :: first) :: others

/-- Cut characters at every `mark`. -/
def cutAt (mark : Char) (chars : List Char) : List (List Char) :=
  chars.foldr (extendSegments mark) [[]]

/-- The segments of a text between its marks. -/
def segments (mark : Char) (text : String) : List String :=
  (cutAt mark text.toList).map String.ofList

end PostfixRules.Text
