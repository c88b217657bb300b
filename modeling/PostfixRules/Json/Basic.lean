import PostfixRules.Keyed
import PostfixRules.Number.Double

/-!
# JSON values

A number is either a whole number that fits 64 bits, signed or unsigned, or a finite double. An
object keeps its members as they were written; `Json.settle` keeps only the last of several
members with one key, at every level, which is how a value is understood once it has been read.
-/

namespace PostfixRules

/-- A whole number that fits a signed or an unsigned word of 64 bits. -/
structure Whole where
  value : Int
  lower : -(2 ^ (63 : Nat)) ≤ value
  upper : value < 2 ^ (64 : Nat)
  deriving DecidableEq, Repr

/-- The whole number with this value, if it fits. -/
def Whole.ofInt? (value : Int) : Option Whole :=
  if h : -(2 ^ (63 : Nat)) ≤ value ∧ value < 2 ^ (64 : Nat) then some ⟨value, h.1, h.2⟩ else none

/-- A number in a JSON document. -/
inductive Json.Number where
  | whole (value : Whole)
  | float (value : Finite)
  deriving DecidableEq, Repr

/-- A JSON value. -/
inductive Json where
  | null
  | bool (value : Bool)
  | number (value : Json.Number)
  | string (text : String)
  | array (elements : List Json)
  /-- Members in the order they were written, with repetitions. -/
  | object (members : List (String × Json))
  deriving Repr, Inhabited

namespace Json

/-- The whole number with this value, or the nearest double when it does not fit 64 bits; an
integer beyond every finite double is the null value. -/
def ofInt (i : Int) : Json :=
  match Whole.ofInt? i, (Double.ofInt i).finite? with
  | some n, _ => .number (.whole n)
  | none, some x => .number (.float x)
  | none, none => .null

/-- The JSON form of a natural number. -/
def ofNat (n : Nat) : Json :=
  ofInt n

/-- The JSON form of a double; what is not finite is the null value. -/
def ofDouble (x : Double) : Json :=
  match x.finite? with
  | some y => .number (.float y)
  | none => .null

/-- The nearest double to a number. -/
def Number.toDouble : Json.Number → Double
  | .whole n => .ofInt n.value
  | .float x => .finite x

/-- The name of the kind of a value. -/
def kindName : Json → String
  | .null => "null"
  | .bool _ => "boolean"
  | .number _ => "number"
  | .string _ => "string"
  | .array _ => "array"
  | .object _ => "object"

/-- Whether the value is the null value. -/
def isNull : Json → Bool
  | .null => true
  | _ => false

/-- Whether the value is an object. -/
def isObject : Json → Bool
  | .object _ => true
  | _ => false

/-- The member of an object with a key. -/
def member? (key : String) : Json → Option Json
  | .object members => members.lookup key
  | _ => none

mutual

/-- Keep the last of several members with one key, at every level. -/
def settle : Json → Json
  | .null => .null
  | .bool b => .bool b
  | .number n => .number n
  | .string s => .string s
  | .array elements => .array (settleElements elements)
  | .object members => .object (settleMembers [] members)

/-- Settle each element of an array. -/
def settleElements : List Json → List Json
  | [] => []
  | v :: rest => settle v :: settleElements rest

/-- Settle members one after the other onto those already settled. -/
def settleMembers (settled : List (String × Json)) : List (String × Json) → List (String × Json)
  | [] => settled
  | (key, value) :: rest => settleMembers (Keyed.put key (settle value) settled) rest

end

end Json

end PostfixRules
