import PostfixRules.Json.Token

/-!
# Reading JSON documents

A pushdown machine reads one value from a row of tokens. Arrays and objects in progress are frames
on a stack, so the depth of nesting is the height of the stack and can be limited. A value that
nobody will look at is passed over by the same machine without a limit, and then also texts and
numbers without a value are let through.
-/

namespace PostfixRules.Json

/-- Why a document is refused. -/
inductive Fault where
  /-- It is not JSON, or nested too deeply. -/
  | malformed
  /-- It is JSON of another shape than was asked for. -/
  | mismatched
  deriving DecidableEq, Repr

/-- The deepest nesting of arrays and objects that is read. -/
def nestingLimit : Nat := 127

/-- An array or object in progress, with what it holds so far, last first. -/
inductive Frame where
  | array (reversed : List Json)
  /-- The key is the one whose value is being read. -/
  | object (reversed : List (String × Json)) (key : String)

/-- What may come next. -/
inductive Expected where
  | value
  /-- The first element of an array, or its end. -/
  | element
  | key
  /-- The first key of an object, or its end. -/
  | member
  | colon
  /-- A comma, or the end of the array or object. -/
  | separator
  deriving DecidableEq, Repr

/-- The machine after a token: still reading, or finished with a value. -/
inductive Progress where
  | more (stack : List Frame) (expected : Expected)
  | done (value : Json)

/-- Hand a finished value to the innermost array or object. -/
def deliver (stack : List Frame) (value : Json) : Progress :=
  match stack with
  | [] => .done value
  | .array reversed :: outer => .more (.array (value :: reversed) :: outer) .separator
  | .object reversed key :: outer =>
    .more (.object ((key, value) :: reversed) key :: outer) .separator

/-- Open an array or object if the limit allows one more level. -/
def enter (limit : Option Nat) (stack : List Frame) (frame : Frame) (expected : Expected) :
    Except Fault Progress :=
  match limit with
  | some depth =>
    if stack.length < depth then .ok (.more (frame :: stack) expected) else .error .malformed
  | none => .ok (.more (frame :: stack) expected)

/-- A scalar token whose value is missing is an error where the value counts. -/
def deliverMissing (limit : Option Nat) (stack : List Frame) : Except Fault Progress :=
  if limit.isNone then .ok (deliver stack .null) else .error .malformed

/-- Take the first token of a value. -/
def beginValue (limit : Option Nat) (stack : List Frame) : Token → Except Fault Progress
  | .null => .ok (deliver stack .null)
  | .bool b => .ok (deliver stack (.bool b))
  | .string (some s) => .ok (deliver stack (.string s))
  | .number (some n) => .ok (deliver stack (.number n))
  | .string none | .number none => deliverMissing limit stack
  | .openBracket => enter limit stack (.array []) .element
  | .openBrace => enter limit stack (.object [] "") .member
  | .closeBrace | .closeBracket | .comma | .colon | .fault => .error .malformed

/-- Take a key of the innermost object. -/
def takeKey (limit : Option Nat) (stack : List Frame) : Token → Except Fault Progress
  | .string value =>
    match stack, value with
    | .object reversed _ :: outer, some key => .ok (.more (.object reversed key :: outer) .colon)
    | .object reversed _ :: outer, none =>
      if limit.isNone then .ok (.more (.object reversed "" :: outer) .colon) else .error .malformed
    | _, _ => .error .malformed
  | _ => .error .malformed

/-- Close the innermost array. -/
def closeArray (stack : List Frame) : Except Fault Progress :=
  match stack with
  | .array reversed :: outer => .ok (deliver outer (.array reversed.reverse))
  | _ => .error .malformed

/-- Close the innermost object. -/
def closeObject (stack : List Frame) : Except Fault Progress :=
  match stack with
  | .object reversed _ :: outer => .ok (deliver outer (.object reversed.reverse))
  | _ => .error .malformed

/-- Go on after a comma. -/
def afterComma (stack : List Frame) : Except Fault Progress :=
  match stack with
  | .array _ :: _ => .ok (.more stack .value)
  | .object _ _ :: _ => .ok (.more stack .key)
  | [] => .error .malformed

/-- Take one token. -/
def advance (limit : Option Nat) (stack : List Frame) (expected : Expected) (token : Token) :
    Except Fault Progress :=
  match expected with
  | .value => beginValue limit stack token
  | .element => if token = .closeBracket then closeArray stack else beginValue limit stack token
  | .key => takeKey limit stack token
  | .member => if token = .closeBrace then closeObject stack else takeKey limit stack token
  | .colon => if token = .colon then .ok (.more stack .value) else .error .malformed
  | .separator =>
    match token with
    | .comma => afterComma stack
    | .closeBracket => closeArray stack
    | .closeBrace => closeObject stack
    | _ => .error .malformed

/-- Run the machine until it has a value; the tokens after the value are left. -/
def drive (limit : Option Nat) (stack : List Frame) (expected : Expected) :
    List Token → Except Fault (Json × List Token)
  | [] => .error .malformed
  | token :: rest =>
    match advance limit stack expected token with
    | .ok (.more stack expected) => drive limit stack expected rest
    | .ok (.done value) => .ok (value, rest)
    | .error fault => .error fault

/-- Read a value nested at most `depth` levels deep. -/
def takeValue (depth : Nat) (tokens : List Token) : Except Fault (Json × List Token) :=
  drive (some depth) [] .value tokens

/-- Pass over a value. -/
def passOver (tokens : List Token) : Except Fault (Json × List Token) :=
  drive none [] .value tokens

/-- Nothing may follow a finished document. -/
def endOfDocument {α : Type} (value : α) : List Token → Except Fault α
  | [] => .ok value
  | _ :: _ => .error .malformed

/-- Read a document of one value, at most `depth` levels deep, with its members as written. -/
def readWithin (depth : Nat) (document : String) : Except Fault Json :=
  match takeValue depth (scan document.toList) with
  | .ok (value, rest) => endOfDocument value rest
  | .error fault => .error fault

/-- Read a document of one value, with its members as written. -/
def read (document : String) : Except Fault Json :=
  readWithin nestingLimit document

/-- A value is read from at least one token. -/
theorem length_drive {limit : Option Nat} {stack : List Frame} {expected : Expected}
    {tokens rest : List Token} {value : Json}
    (h : drive limit stack expected tokens = .ok (value, rest)) : rest.length < tokens.length := by
  induction tokens generalizing stack expected with
  | nil => simp [drive] at h
  | cons token tail ih =>
    rw [drive] at h
    split at h
    · exact Nat.lt_succ_of_lt (ih h)
    · simp only [Except.ok.injEq, Prod.mk.injEq] at h
      simp [h.2]
    · simp at h

end PostfixRules.Json
