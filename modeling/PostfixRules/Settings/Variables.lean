import PostfixRules.Number.Decimal
import PostfixRules.Settings.Value

/-!
# Settings from environment variables

Variables whose names begin with `RULES_`, in any case, form a layer. What follows the beginning is
the key in lower case, two underscores separating levels. The text of a variable becomes the
narrowest value it can be read as: a truth value, a whole number of 64 bits, a double, or itself.
-/

namespace PostfixRules.Setting

/-- The beginning of the names of the variables that count, in lower case. -/
def variableStart : List Char :=
  ['r', 'u', 'l', 'e', 's', '_']

/-- Put a point in place of every two underscores, from left to right. -/
def levels : List Char → List Char
  | '_' :: '_' :: rest => '.' :: levels rest
  | c :: rest => c :: levels rest
  | [] => []

/-- The key that a variable sets, if it counts. -/
def keyOfVariable? (name : String) : Option String :=
  let lower := name.toList.map Char.toLower
  if variableStart.isPrefixOf lower then
    some (String.ofList (levels (lower.drop variableStart.length)))
  else none

/-- The truth value of a text that is `true` or `false` in any case. -/
def flagOfText? (text : String) : Option Bool :=
  let lower := String.ofList (text.toList.map Char.toLower)
  if lower = "true" then some true else if lower = "false" then some false else none

/-- The narrowest value that a text can be read as. -/
def ofVariable (text : String) : Setting :=
  match flagOfText? text with
  | some b => .flag b
  | none =>
    match Text.signed64? text.toList with
    | some i => .whole i
    | none =>
      match Double.read? text.toList with
      | some x => .real x
      | none => .text text

/-- The layer of the variables that count. -/
def ofVariables (env : List (String × String)) : Layer :=
  env.filterMap fun (name, written) =>
    (keyOfVariable? name).map fun key => (key, ofVariable written)

end PostfixRules.Setting
