import PostfixRules.Expr.Codec
import PostfixRules.Json.Form
import PostfixRules.Rule
import PostfixRules.Time.Text

/-!
# Rules as JSON

A rule is written as an object with its fields in a fixed order. It is read as a form: the id, the
name and the tree are needed, a description left out is empty, and times left out are the time of
reading.
-/

namespace PostfixRules.Rule

/-- The JSON form of a rule. -/
def toJson (rule : Rule) : Json :=
  .object [("id", .string rule.id), ("name", .string rule.name),
    ("description", .string rule.description), ("ast", rule.expr.toJson),
    ("createdAt", .string rule.createdAt.text), ("updatedAt", .string rule.updatedAt.text)]

/-- The fields of a rule in order. -/
def formFields : List Json.Field :=
  [⟨"id", .text, false⟩, ⟨"name", .text, false⟩, ⟨"description", .text, true⟩,
    ⟨"ast", .any, false⟩, ⟨"createdAt", .text, true⟩, ⟨"updatedAt", .text, true⟩]

/-- A text field that may have been left out. -/
def textOr (fallback : String) (value : Option Json) : Option String :=
  match value with
  | none => some fallback
  | some value => value.text?

/-- A time field that may have been left out. -/
def timeOr (fallback : Timestamp) (value : Option Json) : Option Timestamp :=
  match value with
  | none => some fallback
  | some value => value.text?.bind Timestamp.read?

/-- The rule of a filled-in form. -/
def ofFields? (now : Timestamp) : List (Option Json) → Option Rule
  | [some id, some name, description, some expr, createdAt, updatedAt] => do
    let id ← id.text?
    let name ← name.text?
    let description ← textOr "" description
    let expr ← Expr.ofJson? expr
    let createdAt ← timeOr now createdAt
    let updatedAt ← timeOr now updatedAt
    some ⟨id, name, description, expr, createdAt, updatedAt⟩
  | _ => none

/-- The rule of a JSON document. A single time of reading stands for both times where they are left
out; a clock that is read for each of them may have moved on in between, which is not modelled. -/
def ofText (now : Timestamp) (document : String) : Except Json.Fault Rule :=
  match Json.fillIn formFields document with
  | .error fault => .error fault
  | .ok values =>
    match ofFields? now values with
    | some rule => .ok rule
    | none => .error .mismatched

end PostfixRules.Rule
