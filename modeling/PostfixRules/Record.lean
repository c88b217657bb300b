import PostfixRules.Json.Reader
import PostfixRules.Text.Segments

/-!
# Records

A record is the JSON value that rules are decided on. A field is first looked up as a key of the
record as it stands; a field with a point that is no key is a path into nested objects and arrays.
The null value counts as absent.
-/

namespace PostfixRules

/-- The data that a rule is decided on. -/
structure Record where
  data : Json

namespace Record

/-- The record without any field. -/
def empty : Record :=
  ⟨.object []⟩

/-- The record of keys with values; the last of several values of one key counts. -/
def ofPairs (pairs : List (String × Json)) : Record :=
  ⟨Json.settle (.object pairs)⟩

/-- The record of a JSON document. -/
def ofText (document : String) : Except Json.Fault Record :=
  (Json.read document).map fun data => ⟨data.settle⟩

/-- Follow steps into a value: a step is a key of an object, or the index of an array written as an
unsigned whole number. -/
def follow? : List String → Json → Option Json
  | [], value => some value
  | step :: steps, .object members => (members.lookup step).bind (follow? steps)
  | step :: steps, .array elements =>
    ((Text.unsigned? (2 ^ (64 : Nat)) step.toList).bind fun i => elements[i]?).bind (follow? steps)
  | _ :: _, _ => none

/-- The value of a field, if it is there and not the null value. -/
def field? (record : Record) (name : String) : Option Json :=
  let found :=
    match record.data.member? name with
    | some value => some value
    | none =>
      if name.toList.contains '.' then follow? (Text.segments '.' name) record.data else none
  found.filter fun value => !value.isNull

end Record

end PostfixRules
