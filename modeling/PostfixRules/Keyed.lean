/-!
# Keyed lists

A list of pairs serves as a table: the value of a key is that of its first pair. Tables are built
with `put`, which keeps every key at most once and in the place where it first came.
-/

namespace PostfixRules.Keyed

variable {α : Type}

/-- Give a key a value: in place if the key is there, at the end if not. -/
def put (key : String) (value : α) : List (String × α) → List (String × α)
  | [] => [(key, value)]
  | (k, v) :: rest => if k = key then (key, value) :: rest else (k, v) :: put key value rest

/-- Take a key out. -/
def erase (key : String) (entries : List (String × α)) : List (String × α) :=
  entries.filter fun entry => entry.1 != key

end PostfixRules.Keyed
