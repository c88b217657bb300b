import PostfixRules.Token

/-!
# Reading rule text

Rule text is in postfix notation: `field value operator` compares, and `tree tree operator` joins.
It is read in one pass over a stack of operands. A plain word waits on the stack until an operator
takes it, a tree carries its depth, and a word that spells an operator takes the operands before it
at once. At the end exactly one tree must be left.
-/

namespace PostfixRules

/-- An operand on the stack. -/
inductive Slot where
  | pending (token : Token)
  /-- A finished tree with its depth, so that no tree is measured twice. -/
  | built (expr : Expr) (depth : Nat)
  deriving DecidableEq, Repr

/-- The operand that a slot holds. -/
def Slot.operand : Slot → Operand
  | .pending token => .word token.text
  | .built expr _ => .tree expr

/-- The state of reading rule text. -/
structure Builder where
  /-- The operands, last first. -/
  stack : List Slot
  /-- The position of the last word taken. -/
  lastPosition : Nat
  deriving DecidableEq, Repr

namespace Builder

/-- Nothing read yet. -/
def start : Builder :=
  ⟨[], 0⟩

/-- The error of an operator without enough operands. -/
def underflow (token : Token) : RuleError :=
  .stackUnderflow token.text token.position

/-- Join the two operands on top of the stack, which must be trees. -/
def reduceLogical (operator : LogicalOperator) (token : Token) :
    List Slot → Except RuleError (List Slot)
  | .built right rightDepth :: .built left leftDepth :: below =>
    let depth := 1 + max leftDepth rightDepth
    if maxDepth < depth then .error (.malformed (.tooDeep depth) token.position)
    else .ok (.built (.logical operator left right) depth :: below)
  | right :: left :: _ =>
    .error (.malformed (.joinsWords operator left.operand right.operand) token.position)
  | _ => .error (underflow token)

/-- Make a comparison of the two operands on top of the stack, which must be plain words, the
lower one a field. The value is looked at before the field. -/
def reduceComparison (operator : ComparisonOperator) (token : Token) :
    List Slot → Except RuleError (List Slot)
  | [] => .error (underflow token)
  | .built expr _ :: _ => .error (.malformed (.treeAsValue operator expr) token.position)
  | [.pending _] => .error (underflow token)
  | .pending _ :: .built expr _ :: _ =>
    .error (.malformed (.treeAsField operator expr) token.position)
  | .pending value :: .pending field :: below =>
    if (Literal.resolve field.text).isString then
      .ok (.built (.comparison operator field.text (Literal.resolve value.text)) 1 :: below)
    else .error (.malformed (.literalAsField operator field.text) field.position)

/-- The stack after a word. -/
def react (stack : List Slot) (token : Token) : Except RuleError (List Slot) :=
  match LogicalOperator.ofWord? token.text with
  | some operator => reduceLogical operator token stack
  | none =>
    match ComparisonOperator.ofSymbol? token.text with
    | some operator => reduceComparison operator token stack
    | none => .ok (.pending token :: stack)

/-- Take one word. -/
def push (b : Builder) (token : Token) : Except RuleError Builder :=
  (react b.stack token).map fun stack => ⟨stack, token.position⟩

/-- The tree that is left when all words have been taken. -/
def finish (b : Builder) : Except RuleError Expr :=
  match b.stack with
  | [.built expr _] => .ok expr
  | [.pending token] => .error (.malformed (.loneWord token.text) token.position)
  | stack => .error (.malformed (.leftOver (stack.reverse.map Slot.operand)) b.lastPosition)

end Builder

/-- The tree of a row of words. -/
def parseTokens (tokens : List Token) : Except RuleError Expr :=
  (tokens.foldlM Builder.push Builder.start).bind Builder.finish

/-- The tree of rule text. -/
def parse (text : String) : Except RuleError Expr :=
  (tokenize text).bind parseTokens

end PostfixRules
