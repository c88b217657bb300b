import PostfixRules.Json.Reader

/-!
# Forms

A form is a flat list of named fields, each of a fixed shape. It is filled in from a JSON object
with the fields as keys, or from an array with the fields in order. The tokens are checked from
left to right and the first error decides: a text that is not JSON is `malformed`, a value of
another shape, a repeated field and a missing field are `mismatched`. Members of other names are
passed over.
-/

namespace PostfixRules.Json

/-- What a field may hold. -/
inductive Shape where
  | text
  | flag
  /-- A list of texts. -/
  | texts
  | any
  /-- The null value, or a value of a shape. -/
  | optional (inner : Shape)
  deriving DecidableEq, Repr

/-- A field of a form. -/
structure Field where
  name : String
  shape : Shape
  /-- Whether the field may be left out of an object and of the end of an array. -/
  mayBeLeftOut : Bool
  deriving DecidableEq, Repr

/-- The fault of a value that is not of the wanted shape: a readable value, or the beginning of an
array or object, is of the wrong shape; anything else is not JSON. -/
def clash : List Token → Fault
  | .null :: _ | .bool _ :: _ | .string (some _) :: _ | .number (some _) :: _
  | .openBrace :: _ | .openBracket :: _ => .mismatched
  | _ => .malformed

/-- Read the rest of a list of texts after one of them; the texts so far are held last first. -/
def takeTexts (reversed : List Json) : List Token → Except Fault (Json × List Token)
  | .closeBracket :: rest => .ok (.array reversed.reverse, rest)
  | .comma :: .string (some s) :: rest => takeTexts (.string s :: reversed) rest
  | .comma :: tokens => .error (clash tokens)
  | _ => .error .malformed

/-- Read a list of texts after its opening bracket. -/
def takeTextList : List Token → Except Fault (Json × List Token)
  | .closeBracket :: rest => .ok (.array [], rest)
  | .string (some s) :: rest => takeTexts [.string s] rest
  | tokens => .error (clash tokens)

/-- Read a value of a shape. Values of any shape may be nested `depth` levels deep. -/
def takeShape (depth : Nat) : Shape → List Token → Except Fault (Json × List Token)
  | .text, .string (some s) :: rest => .ok (.string s, rest)
  | .flag, .bool b :: rest => .ok (.bool b, rest)
  | .texts, .openBracket :: rest => takeTextList rest
  | .any, tokens => takeValue depth tokens
  | .optional _, .null :: rest => .ok (.null, rest)
  | .optional inner, tokens => takeShape depth inner tokens
  | _, tokens => .error (clash tokens)

theorem length_takeTexts {reversed : List Json} {tokens rest : List Token} {value : Json}
    (h : takeTexts reversed tokens = .ok (value, rest)) : rest.length < tokens.length := by
  fun_induction takeTexts reversed tokens with
  | case1 => simp_all
  | case2 reversed s tail ih => have := ih h; simp; omega
  | case3 => simp at h
  | case4 => simp at h

/-- A value of a shape is read from at least one token. -/
theorem length_takeShape {depth : Nat} {shape : Shape} {tokens rest : List Token} {value : Json}
    (h : takeShape depth shape tokens = .ok (value, rest)) : rest.length < tokens.length := by
  fun_induction takeShape depth shape tokens with
  | case1 => simp_all
  | case2 => simp_all
  | case3 tail =>
    revert h
    fun_cases takeTextList tail with
    | case1 =>
      intro h
      simp only [Except.ok.injEq, Prod.mk.injEq] at h
      rw [← h.2, List.length_cons, List.length_cons]
      omega
    | case2 s more => intro h; have := length_takeTexts h; simp; omega
    | case3 => intro h; simp at h
  | case4 tokens => exact length_drive h
  | case5 => simp_all
  | case6 inner tokens _ ih => exact ih h
  | case7 => simp at h

/-- Fill in a form from the fields in order, after an opening bracket. -/
def takeInOrder (depth : Nat) : Bool → List Field → List Token →
    Except Fault (List (Option Json) × List Token)
  | _, [], .closeBracket :: rest => .ok ([], rest)
  | _, [], _ => .error .malformed
  | _, field :: others, .closeBracket :: rest =>
    if (field :: others).all Field.mayBeLeftOut then
      .ok ((field :: others).map fun _ => none, rest)
    else .error .mismatched
  | isFirst, field :: others, tokens =>
    match isFirst, tokens with
    | false, .comma :: rest | true, rest =>
      match takeShape depth field.shape rest with
      | .ok (value, rest) =>
        (takeInOrder depth false others rest).map fun (values, rest) => (some value :: values, rest)
      | .error fault => .error fault
    | false, _ => .error .malformed

/-- The fields found in an object, unless one that is needed is missing. -/
def collect (fields : List Field) (found : List (String × Json)) :
    Except Fault (List (Option Json)) :=
  let missing (field : Field) : Bool :=
    !field.mayBeLeftOut && (found.lookup field.name).isNone &&
      (match field.shape with | .optional _ => false | _ => true)
  if fields.any missing then .error .mismatched
  else .ok (fields.map fun field => found.lookup field.name)

/-- Fill in a form from the members of an object, after its opening brace and after the comma that
separates a member from the one before. A repeated field is refused at its key. -/
def takeMembers (depth : Nat) (fields : List Field) (found : List (String × Json)) :
    List Token → Except Fault (List (Option Json) × List Token)
  | .string (some key) :: tokens =>
    match fields.find? fun field => field.name == key with
    | some field =>
      if (found.lookup key).isSome then .error .mismatched
      else match tokens with
        | .colon :: rest =>
          match h : takeShape depth field.shape rest with
          | .ok (value, .comma :: rest') =>
            have := length_takeShape h
            takeMembers depth fields ((key, value) :: found) rest'
          | .ok (value, .closeBrace :: rest') =>
            (collect fields ((key, value) :: found)).map fun values => (values, rest')
          | .ok _ => .error .malformed
          | .error fault => .error fault
        | _ => .error .malformed
    | none =>
      match tokens with
      | .colon :: rest =>
        match h : passOver rest with
        | .ok (_, .comma :: rest') =>
          have := length_drive h
          takeMembers depth fields found rest'
        | .ok (_, .closeBrace :: rest') =>
          (collect fields found).map fun values => (values, rest')
        | .ok _ => .error .malformed
        | .error fault => .error fault
      | _ => .error .malformed
  | _ => .error .malformed
termination_by tokens => tokens.length
decreasing_by all_goals (simp_wf; simp_all; omega)

/-- Fill in a form: one value for each field, absent if the field was left out. -/
def fillIn (fields : List Field) (document : String) : Except Fault (List (Option Json)) :=
  let depth := nestingLimit - 1
  let filled :=
    match scan document.toList with
    | .openBrace :: .closeBrace :: rest => (collect fields []).map fun values => (values, rest)
    | .openBrace :: rest => takeMembers depth fields [] rest
    | .openBracket :: rest => takeInOrder depth true fields rest
    | tokens => .error (clash tokens)
  match filled with
  | .ok (values, rest) => endOfDocument values rest
  | .error fault => .error fault

end PostfixRules.Json
