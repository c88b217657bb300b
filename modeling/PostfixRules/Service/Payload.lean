import PostfixRules.Error
import PostfixRules.Expr.Codec
import PostfixRules.Json.Form
import PostfixRules.Text.Blank

/-!
# Request bodies

The bodies of requests are forms. A body that fills in its form may still be objected to: names and
descriptions have limits, counted in characters, and a rule is run either by id or as a submitted
tree, on an object.
-/

namespace PostfixRules

/-- Read a body with a form. -/
def Json.decodeBody {α : Type} (fields : List Json.Field)
    (ofFields? : List (Option Json) → Option α) (body : String) : Except Json.Fault α :=
  match Json.fillIn fields body with
  | .error fault => .error fault
  | .ok values =>
    match ofFields? values with
    | some payload => .ok payload
    | none => .error .mismatched

/-- Refuse a request to which there are objections. -/
def rejectIf (objections : List (String × List Objection)) : Except RuleError Unit :=
  let standing := objections.filter fun (_, list) => !list.isEmpty
  if standing.isEmpty then .ok () else .error (.validation (.request standing))

/-- What is needed to create a rule. -/
structure CreatePayload where
  name : String
  description : String
  ruleText : String
  deriving DecidableEq, Repr

namespace CreatePayload

/-- The fields of the body in order. -/
def formFields : List Json.Field :=
  [⟨"name", .text, false⟩, ⟨"description", .text, true⟩, ⟨"ruleString", .text, false⟩]

/-- The payload of a filled-in form; a description left out is empty. -/
def ofFields? : List (Option Json) → Option CreatePayload
  | [some (.string name), none, some (.string text)] => some ⟨name, "", text⟩
  | [some (.string name), some (.string description), some (.string text)] =>
    some ⟨name, description, text⟩
  | _ => none

/-- Read a body. -/
def decode (body : String) : Except Json.Fault CreatePayload :=
  Json.decodeBody formFields ofFields? body

/-- The objections to a name: its length, and that there is nothing to read in it. -/
def nameObjections (name : String) : List Objection :=
  (if 1 ≤ name.length ∧ name.length ≤ 100 then [] else [.nameLength]) ++
    if Text.allBlank name then [.blankName] else []

/-- The objections to a description. -/
def descriptionObjections (description : String) : List Objection :=
  if description.length ≤ 500 then [] else [.longDescription]

/-- Check the limits. -/
def check (payload : CreatePayload) : Except RuleError Unit :=
  rejectIf [("name", nameObjections payload.name),
    ("description", descriptionObjections payload.description)]

end CreatePayload

/-- Rule text to be read. -/
structure ParsePayload where
  ruleText : String
  deriving DecidableEq, Repr

namespace ParsePayload

/-- The only field of the body. -/
def formFields : List Json.Field :=
  [⟨"ruleString", .text, false⟩]

/-- The payload of a filled-in form. -/
def ofFields? : List (Option Json) → Option ParsePayload
  | [some (.string text)] => some ⟨text⟩
  | _ => none

/-- Read a body. -/
def decode (body : String) : Except Json.Fault ParsePayload :=
  Json.decodeBody formFields ofFields? body

end ParsePayload

/-- The rules to be combined. -/
structure CombinePayload where
  ruleIds : List String
  deriving DecidableEq, Repr

namespace CombinePayload

/-- The only field of the body. -/
def formFields : List Json.Field :=
  [⟨"ruleIds", .texts, false⟩]

/-- The payload of a filled-in form. -/
def ofFields? : List (Option Json) → Option CombinePayload
  | [some (.array ids)] => (ids.mapM Json.text?).map (⟨·⟩)
  | _ => none

/-- Read a body. -/
def decode (body : String) : Except Json.Fault CombinePayload :=
  Json.decodeBody formFields ofFields? body

end CombinePayload

/-- A rule to be run, and the data to run it on. -/
structure EvaluatePayload where
  /-- A submitted tree, not yet read as one. -/
  ast : Option Json
  ruleId : Option String
  data : Json
  traced : Bool

namespace EvaluatePayload

/-- The fields of the body in order. -/
def formFields : List Json.Field :=
  [⟨"ast", .optional .any, false⟩, ⟨"ruleId", .optional .text, false⟩, ⟨"data", .any, false⟩,
    ⟨"trace", .flag, true⟩]

/-- A value that is there and not the null value. -/
def present (value : Option Json) : Option Json :=
  value.filter fun value => !value.isNull

/-- The text of a field, or that there is none; any other value is no answer. -/
def optionalText? (value : Option Json) : Option (Option String) :=
  match value with
  | none | some .null => some none
  | some (.string s) => some (some s)
  | some _ => none

/-- The truth value of a field, false if it was left out; any other value is no answer. -/
def flag? (value : Option Json) : Option Bool :=
  match value with
  | none => some false
  | some (.bool b) => some b
  | some _ => none

/-- The payload of a filled-in form. -/
def ofFields? : List (Option Json) → Option EvaluatePayload
  | [ast, ruleId, some data, trace] =>
    (optionalText? ruleId).bind fun ruleId =>
      (flag? trace).map fun traced =>
        ⟨(present ast).map Json.settle, ruleId, data.settle, traced⟩
  | _ => none

/-- Read a body. -/
def decode (body : String) : Except Json.Fault EvaluatePayload :=
  Json.decodeBody formFields ofFields? body

/-- What a rule is run by and on: exactly one of a tree and an id, and an object. -/
def objections (payload : EvaluatePayload) : List Objection :=
  match payload.ast, payload.ruleId with
  | some _, some _ => [.twoTargets]
  | none, none => [.noTarget]
  | _, _ => if payload.data.isObject then [] else [.dataNotObject]

/-- Check the request as a whole. -/
def check (payload : EvaluatePayload) : Except RuleError Unit :=
  rejectIf [("__all__", payload.objections)]

end EvaluatePayload

end PostfixRules
