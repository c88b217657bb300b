import PostfixRules.Combination
import PostfixRules.Compiler
import PostfixRules.Parser
import PostfixRules.Rule.Codec

/-!
# The rule store

The store keeps compiled rules by id, and the compiler that made them. Loading a rule takes two
steps, compiling it and then putting it under its id, where it replaces a rule with the same id. An
operation that fails leaves the store as it was.
-/

namespace PostfixRules

/-- Compiled rules by id, with the compiler that numbers them. -/
structure Store where
  entries : List (String × CompiledRule)
  compiler : Compiler

namespace Store

/-- A store without rules. -/
def empty : Store :=
  ⟨[], .start⟩

/-- The number of rules. -/
def size (store : Store) : Nat :=
  store.entries.length

/-- Whether there are no rules. -/
def isEmpty (store : Store) : Bool :=
  store.entries.isEmpty

/-- The compiled rule under an id. -/
def get? (store : Store) (id : String) : Option CompiledRule :=
  store.entries.lookup id

/-- Whether there is a rule under an id. -/
def contains (store : Store) (id : String) : Bool :=
  (store.get? id).isSome

/-- The first step of loading: compile a rule. -/
def compile (store : Store) (rule : Rule) : Except RuleError CompiledRule × Store :=
  match store.compiler.compile rule with
  | .error e => (.error e, store)
  | .ok (compiled, compiler) => (.ok compiled, { store with compiler := compiler })

/-- The second step of loading: put a compiled rule under its id. -/
def insert (store : Store) (compiled : CompiledRule) : Store :=
  { store with entries := Keyed.put compiled.rule.id compiled store.entries }

/-- Load a rule, in place of a rule with the same id. -/
def load (store : Store) (rule : Rule) : Except RuleError Unit × Store :=
  match store.compile rule with
  | (.error e, store) => (.error e, store)
  | (.ok compiled, store) => (.ok (), store.insert compiled)

/-- Load a rule from a JSON document and tell its id. -/
def loadText (store : Store) (now : Timestamp) (document : String) :
    Except RuleError String × Store :=
  match Rule.ofText now document with
  | .error fault => (.error (.json fault), store)
  | .ok rule =>
    match store.load rule with
    | (.error e, store) => (.error e, store)
    | (.ok (), store) => (.ok rule.id, store)

/-- Make a rule of rule text, with an id that has not been used, and load it. -/
def create (store : Store) (id : String) (now : Timestamp) (name description text : String) :
    Except RuleError Rule × Store :=
  match parse text with
  | .error e => (.error e, store)
  | .ok expr =>
    let rule := Rule.create id now name description expr
    match store.load rule with
    | (.error e, store) => (.error e, store)
    | (.ok (), store) => (.ok rule, store)

/-- Take out the rule under an id. -/
def delete (store : Store) (id : String) : Except RuleError Unit × Store :=
  if store.contains id then (.ok (), { store with entries := Keyed.erase id store.entries })
  else (.error (.ruleNotFound id), store)

/-- Take out all rules; the compiler goes on counting. -/
def clear (store : Store) : Store :=
  { store with entries := [] }

/-- All rules in the order of listing. -/
def list (store : Store) : List Rule :=
  (store.entries.map fun entry => entry.2.rule).mergeSort Rule.le

/-- The tree of the rule under an id. -/
def expr (store : Store) (id : String) : Except RuleError Expr :=
  match store.get? id with
  | some compiled => .ok compiled.rule.expr
  | none => .error (.ruleNotFound id)

/-- Join the trees of rules, in the order given, with `AND`. -/
def combine (store : Store) (ids : List String) : Except RuleError Expr :=
  (ids.mapM store.expr).bind (PostfixRules.combine .and)

-- Sums start at the literal zero, whatever algebra is in scope.
attribute [local instance (2000)] Zero.ofOfNat0

/-- Numbers about a store. -/
structure Stats where
  rules : Nat
  /-- The sum of the numbers of fields that the rules read. -/
  fields : Nat
  /-- The average number of fields that a rule reads. -/
  average : Double
  deriving DecidableEq, Repr

/-- The numbers about a store; the average over no rules is zero. The average is the quotient of
both counts rounded once, which is also the quotient of the counts as doubles while they are below
`2 ^ 53`. -/
def stats (store : Store) : Stats :=
  let fields := (store.entries.map fun entry => entry.2.requiredFields.length).sum
  { rules := store.size
    fields := fields
    average := if 0 < store.size then Double.ofRatio false fields store.size else Double.ofNat 0 }

end Store

end PostfixRules
