import PostfixRules.Execution
import PostfixRules.Rule
import PostfixRules.Validation

/-!
# Compiled rules

Compiling a rule checks it, finds the fields that it reads, and gives it the next version number. A
rule that is refused uses up no number.
-/

namespace PostfixRules

/-- Put a name into names in byte order, unless it is there. -/
def insertName (name : String) : List String → List String
  | [] => [name]
  | first :: rest =>
    match Text.byteOrder name first with
    | .lt => name :: first :: rest
    | .eq => first :: rest
    | .gt => first :: insertName name rest

/-- The fields that a tree reads, each once, in byte order. -/
def Expr.requiredFields (expr : Expr) : List String :=
  expr.fields.foldr insertName []

/-- A rule that has been checked. -/
structure CompiledRule where
  rule : Rule
  /-- The fields that the rule reads, each once, in byte order. -/
  requiredFields : List String
  version : Nat
  deriving DecidableEq, Repr

/-- The compiler is no more than the number of rules it has compiled. The number has no bound: a
counter of 64 bits would differ only after `2 ^ 64` rules, which is out of reach. -/
structure Compiler where
  version : Nat
  deriving DecidableEq, Repr

/-- A compiler that has not compiled anything. -/
def Compiler.start : Compiler :=
  ⟨0⟩

/-- Compile a rule; its id must not be empty and its tree must be sound. -/
def Compiler.compile (compiler : Compiler) (rule : Rule) :
    Except RuleError (CompiledRule × Compiler) :=
  if rule.id.isEmpty then .error (.validation (.single .emptyRuleId))
  else match validate rule.expr rootPath with
    | .error e => .error e
    | .ok () =>
      let version := compiler.version + 1
      .ok (⟨rule, rule.expr.requiredFields, version⟩, ⟨version⟩)

/-- The outcome of running a tree, and the rule that it belongs to, if any. -/
structure Execution where
  ruleId : Option String
  findings : Findings
  deriving DecidableEq, Repr

/-- Run a tree that belongs to no rule. -/
def Expr.run (traced : Bool) (expr : Expr) (record : Record) : Except RuleError Execution :=
  (execute traced expr record).map (⟨none, ·⟩)

/-- Run a compiled rule. -/
def CompiledRule.run (traced : Bool) (compiled : CompiledRule) (record : Record) :
    Except RuleError Execution :=
  (execute traced compiled.rule.expr record).map (⟨some compiled.rule.id, ·⟩)

end PostfixRules
