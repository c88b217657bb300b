import PostfixRules.Error
import PostfixRules.Json.Writer

/-!
# Trees as JSON

A tree is written as nested objects that name their kind under `type`. Reading is more liberal:
keys may come in any order and others are passed over, an object may also be given as the array of
its parts, and the name of an operator or of a literal's kind may be the only key of an object
without content. A part that is given twice is refused.
-/

namespace PostfixRules

/-- The only value under a key. -/
def sole? {α : Type} (key : String) (members : List (String × α)) : Option α :=
  match members.filter fun member => member.1 == key with
  | [(_, value)] => some value
  | _ => none

/-- The name that a JSON value gives: a text, or the only key of an object without content. -/
def Json.name? : Json → Option String
  | .string s => some s
  | .object [(key, .null)] => some key
  | .object [(key, .object [])] => some key
  | _ => none

/-- The text that a JSON value is. -/
def Json.text? : Json → Option String
  | .string s => some s
  | _ => none

namespace Literal

/-- The JSON form of a literal. A number that is not finite has no form and becomes the null
value. -/
def toJson (literal : Literal) : Json :=
  let content :=
    match literal with
    | .number x => Json.ofDouble x
    | .string s => .string s
    | .boolean b => .bool b
  .object [("type", .string literal.kindName), ("value", content)]

/-- The literal of a kind with a content. -/
def ofParts? (kind : String) (content : Json) : Option Literal :=
  if kind = "number" then
    match content with
    | .number n => some (.number n.toDouble)
    | _ => none
  else if kind = "string" then
    match content with
    | .string s => some (.string s)
    | _ => none
  else if kind = "boolean" then
    match content with
    | .bool b => some (.boolean b)
    | _ => none
  else none

/-- The literal that a JSON value denotes. -/
def ofJson? : Json → Option Literal
  | .object members =>
    ((sole? "type" members).bind Json.name?).bind fun kind =>
      (sole? "value" members).bind (ofParts? kind)
  | .array [kind, content] => kind.name?.bind fun kind => ofParts? kind content
  | _ => none

end Literal

namespace Expr

/-- The JSON form of a tree. -/
def toJson : Expr → Json
  | .comparison operator field value =>
    .object [("type", .string "comparison"), ("operator", .string operator.symbol),
      ("field", .string field), ("value", value.toJson)]
  | .logical operator left right =>
    .object [("type", .string "operator"), ("operator", .string operator.word),
      ("left", left.toJson), ("right", right.toJson)]

/-- The two kinds of nodes. -/
inductive Kind where
  | logical
  | comparison
  deriving DecidableEq, Repr

/-- The kind that a tag names. Below the root a kind may also be given by its number. -/
def Kind.ofTag? (nested : Bool) : Json → Option Kind
  | .string s =>
    if s = "operator" then some .logical else if s = "comparison" then some .comparison else none
  | .number (.whole n) =>
    if nested then
      if n.value = 0 then some .logical else if n.value = 1 then some .comparison else none
    else none
  | _ => none

/-- A comparison from the JSON forms of its parts. -/
def comparisonOf? (operator field value : Json) : Option Expr :=
  (operator.name?.bind ComparisonOperator.ofSymbol?).bind fun operator =>
    field.text?.bind fun field => (Literal.ofJson? value).map (.comparison operator field)

/-- A logical node from the JSON form of its operator and its sides, if they are trees. -/
def logicalOf? (operator : Json) (left right : Option Expr) : Option Expr :=
  (operator.name?.bind LogicalOperator.ofWord?).bind fun operator =>
    left.bind fun left => right.map (.logical operator left)

mutual

/-- The tree that a JSON value denotes. -/
def ofJsonAt? (nested : Bool) : Json → Option Expr
  | .object members =>
    let trees := memberTrees members
    ((sole? "type" members).bind (Kind.ofTag? nested)).bind fun
      | .logical =>
        (sole? "operator" members).bind fun operator =>
          logicalOf? operator (sole? "left" trees).join (sole? "right" trees).join
      | .comparison =>
        (sole? "operator" members).bind fun operator =>
          (sole? "field" members).bind fun field =>
            (sole? "value" members).bind (comparisonOf? operator field)
  | .array (tag :: parts) =>
    let trees := partTrees parts
    (Kind.ofTag? nested tag).bind fun
      | .logical =>
        match parts, trees with
        | [operator, _, _], [_, left, right] => logicalOf? operator left right
        | _, _ => none
      | .comparison =>
        match parts with
        | [operator, field, value] => comparisonOf? operator field value
        | _ => none
  | _ => none

/-- Each member's value as a tree, if it denotes one. -/
def memberTrees : List (String × Json) → List (String × Option Expr)
  | [] => []
  | (key, value) :: rest => (key, ofJsonAt? true value) :: memberTrees rest

/-- Each part as a tree, if it denotes one. -/
def partTrees : List Json → List (Option Expr)
  | [] => []
  | value :: rest => ofJsonAt? true value :: partTrees rest

end

/-- The tree that a JSON value denotes. -/
def ofJson? (value : Json) : Option Expr :=
  ofJsonAt? false value

/-- The tree that a JSON value denotes, or the error that it denotes none. -/
def decode (value : Json) : Except RuleError Expr :=
  match ofJson? value with
  | some expr => .ok expr
  | none => .error (.invalidNode .undecodable)

/-- The tree of a JSON document. -/
def ofText (document : String) : Except RuleError Expr :=
  match Json.read document with
  | .error fault => .error (.json fault)
  | .ok value =>
    match ofJson? value with
    | some expr => .ok expr
    | none => .error (.json .mismatched)

end Expr

end PostfixRules
