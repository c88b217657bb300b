import PostfixRules.Settings.Value
import PostfixRules.Text.Segments

/-!
# Dotted keys

A key of a layer may be a path: names of letters, digits, underscores and hyphens with points
between them lead through tables. A key of any other form is an ordinary key.
-/

namespace PostfixRules.Setting

/-- The characters of the names in a path. -/
def isNameChar (c : Char) : Bool :=
  c.isAlphanum || c == '_' || c == '-'

/-- The path that a key is, or the key itself if it is none. -/
def pathOf (key : String) : List String :=
  let names := Text.segments '.' key
  if names.all fun name => !name.isEmpty && name.toList.all isNameChar then names else [key]

/-- An entry with its path written out as tables. -/
def expandEntry (entry : String × Setting) : String × Setting :=
  match pathOf entry.1 with
  | [] => entry
  | first :: others => (first, nested others entry.2)

/-- A layer with all paths written out as tables. -/
def expand (layer : Layer) : Layer :=
  layer.map expandEntry

/-- All layers laid over each other, the first lowest. -/
def stack (layers : List Layer) : Layer :=
  layers.foldl (fun below layer => layOver below (expand layer)) []

end PostfixRules.Setting
