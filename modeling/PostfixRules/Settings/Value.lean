import PostfixRules.Keyed
import PostfixRules.Number.Double

/-!
# Setting values

Settings come in layers. A layer is a table of values, some of them tables again. Laying one layer
over another works key by key: a table is merged with the table below it at every level, and every
other value replaces what is below it.
-/

namespace PostfixRules

/-- A value in a layer of settings. -/
inductive Setting where
  | flag (value : Bool)
  | whole (value : Int)
  | real (value : Double)
  | text (value : String)
  | list (elements : List Setting)
  | table (entries : List (String × Setting))
  deriving Repr, Inhabited

/-- A layer of settings by key. -/
abbrev Layer := List (String × Setting)

namespace Setting

/-- The entries of a table; any other value, or none, has no entries. -/
def entriesOf : Option Setting → Layer
  | some (.table entries) => entries
  | _ => []

mutual

/-- Lay a value over what is below it, if there is anything. -/
def laidOver (below : Option Setting) : Setting → Setting
  | .flag b => .flag b
  | .whole i => .whole i
  | .real x => .real x
  | .text s => .text s
  | .list elements => .list elements
  | .table entries => .table (layOver (entriesOf below) entries)

/-- Lay entries over a layer, one after the other. -/
def layOver (below : Layer) : Layer → Layer
  | [] => below
  | (key, value) :: rest => layOver (Keyed.put key (laidOver (below.lookup key) value) below) rest

end

/-- A value inside tables, one for each key of a path. -/
def nested (path : List String) (value : Setting) : Setting :=
  path.foldr (fun key inner => .table [(key, inner)]) value

end Setting

end PostfixRules
