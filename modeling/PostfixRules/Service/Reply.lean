import PostfixRules.Error
import PostfixRules.Store
import PostfixRules.Service.Metric

/-!
# Replies

A reply is what a request comes to: data, an error of the rule engine, or a plain refusal before the
rule engine is asked at all. Its status, its media type and its body follow from that.
-/

namespace PostfixRules

/-- What a request comes to. -/
inductive Reply where
  /-- Success, with data if there is any. -/
  | success (status : Nat) (data : Option Json)
  | failure (error : RuleError)
  /-- A short text, such as the reason why a request could not be understood. -/
  | plain (status : Nat) (text : String)
  /-- No endpoint has the path. -/
  | noEndpoint
  /-- The endpoint has other methods. -/
  | otherMethods (allowed : List String)

/-- The body of a response. -/
inductive Body where
  | json (value : Json)
  | text (value : String)
  | empty

namespace Reply

/-- The status of a reply. -/
def status : Reply → Nat
  | .success status _ => status
  | .failure error => error.status
  | .plain status _ => status
  | .noEndpoint => 404
  | .otherMethods _ => 405

/-- The media type of a reply that has a body. -/
def contentType? : Reply → Option String
  | .success _ _ | .failure _ => some "application/json"
  | .plain _ _ => some "text/plain; charset=utf-8"
  | .noEndpoint | .otherMethods _ => none

/-- The methods that a refusal for the method tells. -/
def allow? : Reply → Option String
  | .otherMethods allowed => some (String.intercalate "," allowed)
  | _ => none

/-- The body of a reply. Success without data leaves the data out, an error has the null value in
its place. -/
def body : Reply → Body
  | .success _ data =>
    .json (.object ([("success", .bool true), ("code", .string "SUCCESS"),
      ("message", .string "操作成功")] ++ (data.map (("data", ·))).toList))
  | .failure error =>
    .json (.object [("success", .bool false), ("code", .string error.code),
      ("message", .string error.message), ("data", .null)])
  | .plain _ text => .text text
  | .noEndpoint | .otherMethods _ => .empty

/-- The reply of an operation that gives data or an error. -/
def ofResult {α : Type} (status : Nat) (toJson : α → Json) : Except RuleError α → Reply
  | .ok value => .success status (some (toJson value))
  | .error error => .failure error

end Reply

/-- The JSON form of the numbers about a store. -/
def Store.Stats.toJson (stats : Store.Stats) : Json :=
  .object [("rulesCount", .ofNat stats.rules), ("totalFields", .ofNat stats.fields),
    ("avgFieldsPerRule", .ofDouble stats.average)]

/-- A list of texts as JSON. -/
def Json.ofTexts (texts : List String) : Json :=
  .array (texts.map .string)

/-- The JSON form of the outcome of running a rule, which took so many milliseconds. A rule that
there is none of, and an empty trace, are left out. -/
def Execution.toJson (execution : Execution) (millis : Nat) : Json :=
  let findings := execution.findings
  .object ([("result", Json.bool findings.matched)] ++
    (execution.ruleId.map fun id => ("ruleId", Json.string id)).toList ++
    [("matchedConditions", Json.ofTexts findings.conditions)] ++
    (if findings.trace.isEmpty then [] else [("evaluationTrace", Json.ofTexts findings.trace)]) ++
    [("evaluationTimeMs", Json.ofNat millis)])

end PostfixRules
