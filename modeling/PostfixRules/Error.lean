import PostfixRules.Expr
import PostfixRules.Json.Reader
import PostfixRules.Text.ByteOrder

/-!
# Errors

Every error states its cause as data. The wording of all messages, the code and the status of each
kind are given here and nowhere else.
-/

namespace PostfixRules

/-- Something that stands where rule text needs operands: a plain word or a finished tree. -/
inductive Operand where
  | word (text : String)
  | tree (expr : Expr)
  deriving DecidableEq, Repr

/-- How messages show an operand. -/
def Operand.describe : Operand → String
  | .word text => "'" ++ text ++ "'"
  | .tree expr => "[" ++ expr.text ++ "]"

/-- Why rule text is not a rule. -/
inductive Malformation where
  /-- Not exactly one operand is left at the end. -/
  | leftOver (operands : List Operand)
  /-- The only operand left at the end is a plain word. -/
  | loneWord (text : String)
  /-- A logical operator has an operand that is not a tree. -/
  | joinsWords (operator : LogicalOperator) (left right : Operand)
  /-- The tree would be deeper than is accepted. -/
  | tooDeep (depth : Nat)
  | treeAsValue (operator : ComparisonOperator) (expr : Expr)
  | treeAsField (operator : ComparisonOperator) (expr : Expr)
  /-- The word in the place of the field denotes a number or a truth value. -/
  | literalAsField (operator : ComparisonOperator) (text : String)
  /-- A reason in the words of the caller. -/
  | stated (reason : String)
  deriving DecidableEq, Repr

/-- The wording of a malformation. -/
def Malformation.message : Malformation → String
  | .leftOver operands =>
    "表达式结束时栈上应恰好剩余 1 个表达式，实际 " ++ Text.natText operands.length ++ " 个: " ++
      String.intercalate " " (operands.map Operand.describe)
  | .loneWord text => "'" ++ text ++ "' 不是完整的表达式，缺少比较操作符"
  | .joinsWords operator left right =>
    "逻辑操作符 '" ++ operator.word ++ "' 只能连接表达式，不能连接原始值: " ++ left.describe ++ " " ++
      right.describe
  | .tooDeep depth =>
    "表达式嵌套深度 " ++ Text.natText depth ++ " 超过上限 " ++ Text.natText maxDepth
  | .treeAsValue operator expr =>
    "比较操作符 '" ++ operator.symbol ++ "' 的值不能是表达式 [" ++ expr.text ++ "]"
  | .treeAsField operator expr =>
    "比较操作符 '" ++ operator.symbol ++ "' 的字段不能是表达式 [" ++ expr.text ++ "]"
  | .literalAsField operator text =>
    "比较操作符 '" ++ operator.symbol ++ "' 期望字段名，实际为字面量 '" ++ text ++ "'"
  | .stated reason => reason

/-- What is wrong with a tree that was not built from rule text, or with a JSON value that should
be one. -/
inductive NodeDefect where
  /-- The JSON value is not the form of a tree. -/
  | undecodable
  /-- The tree has levels below the last one that is decided. -/
  | tooDeepToDecide
  /-- A comparison without a field was to be decided. -/
  | emptyField
  /-- A comparison with a number that is not finite was to be decided. -/
  | notFinite (field : String) (value : Double)
  | tooDeepAt (path : String)
  | emptyFieldAt (path : String)
  | notFiniteAt (path : String) (value : Double)
  /-- With the tree of this ordinal the combination would be too deep. -/
  | combinedTooDeep (ordinal depth : Nat)
  /-- A reason in the words of the caller. -/
  | stated (reason : String)
  deriving DecidableEq, Repr

/-- The wording of a defect. A value that is not the form of a node has a fixed text here; what the
JSON decoder reports about it, word for word, is not modelled. -/
def NodeDefect.message : NodeDefect → String
  | .undecodable => "value is not the form of a node"
  | .tooDeepToDecide => "表达式深度超过上限 " ++ Text.natText maxDepth
  | .emptyField => "比较节点的字段名为空"
  | .notFinite field value => "字段 '" ++ field ++ "' 的数值字面量无效: " ++ value.plainText
  | .tooDeepAt path => "节点 '" ++ path ++ "' 超过最大深度 " ++ Text.natText maxDepth
  | .emptyFieldAt path => "节点 '" ++ path ++ "' 的字段名为空"
  | .notFiniteAt path value => "节点 '" ++ path ++ "' 的数值字面量无效: " ++ value.plainText
  | .combinedTooDeep ordinal depth =>
    "组合第 " ++ Text.natText ordinal ++ " 条规则后表达式深度 " ++ Text.natText depth ++
      " 超过上限 " ++ Text.natText maxDepth
  | .stated reason => reason

/-- A condition that a request or a rule breaks. -/
inductive Objection where
  | emptyRuleId
  | nameLength
  | blankName
  | longDescription
  | twoTargets
  | noTarget
  | dataNotObject
  deriving DecidableEq, Repr

/-- The wording of an objection. -/
def Objection.message : Objection → String
  | .emptyRuleId => "规则 ID 不能为空"
  | .nameLength => "规则名称长度必须在1-100个字符之间"
  | .blankName => "规则名称不能为空"
  | .longDescription => "规则描述不能超过500个字符"
  | .twoTargets => "ast 和 ruleId 只能指定其中一个"
  | .noTarget => "必须指定 ast 或 ruleId"
  | .dataNotObject => "data 必须是 JSON 对象"

/-- Why something is refused before it is looked at further. -/
inductive Rejection where
  | single (objection : Objection)
  /-- The objections to a request, by field. -/
  | request (fields : List (String × List Objection))
  /-- A reason in the words of the caller. -/
  | stated (reason : String)
  deriving DecidableEq, Repr

/-- The line of one field. -/
def Objection.line (field : String) (objections : List Objection) : String :=
  field ++ ": " ++ String.intercalate ", " (objections.map Objection.message)

/-- The wording of a rejection: the lines of a request are in the order of their bytes. -/
def Rejection.message : Rejection → String
  | .single objection => objection.message
  | .request fields =>
    String.intercalate "\n"
      ((fields.map fun (field, objections) => Objection.line field objections).mergeSort
        Text.byteLe)
  | .stated reason => reason

/-- The wording of a fault in a JSON document: a fixed text for each kind. What the JSON decoder
reports about it, with its line and column, is not modelled. -/
def Json.Fault.message : Json.Fault → String
  | .malformed => "text is not a JSON document"
  | .mismatched => "JSON document has an unexpected shape"

/-- An error of the rule engine. -/
inductive RuleError where
  /-- The rule text has no words. -/
  | emptyInput
  | malformed (reason : Malformation) (position : Nat)
  /-- An operator finds too few operands. -/
  | stackUnderflow (token : String) (position : Nat)
  | emptyRuleSet
  | missingField (field : String)
  /-- An order was asked for between values that have none. -/
  | typeMismatch (operator field expected actual : String)
  | invalidNode (defect : NodeDefect)
  | ruleNotFound (id : String)
  | validation (rejection : Rejection)
  | json (fault : Json.Fault)
  deriving DecidableEq, Repr

namespace RuleError

/-- The message of an error. -/
def message : RuleError → String
  | .emptyInput => "规则文本为空"
  | .malformed reason position =>
    "规则表达式格式错误 (位置 " ++ Text.natText position ++ "): " ++ reason.message
  | .stackUnderflow token position =>
    "操作数不足: 操作符 '" ++ token ++ "' (位置 " ++ Text.natText position ++ ") 缺少操作数"
  | .emptyRuleSet => "待组合的规则列表为空"
  | .missingField field => "字段不存在: " ++ field
  | .typeMismatch operator field expected actual =>
    "类型不匹配: " ++ field ++ " " ++ operator ++ " 期望 " ++ expected ++ ", 实际 " ++ actual
  | .invalidNode defect => "无效的表达式节点: " ++ defect.message
  | .ruleNotFound id => "规则未找到: " ++ id
  | .validation rejection => "参数验证失败: " ++ rejection.message
  | .json fault => "JSON 序列化错误: " ++ fault.message

/-- The code of the kind of an error. -/
def code : RuleError → String
  | .emptyInput => "EMPTY_INPUT"
  | .malformed _ _ => "MALFORMED_EXPRESSION"
  | .stackUnderflow _ _ => "STACK_UNDERFLOW"
  | .emptyRuleSet => "EMPTY_RULE_SET"
  | .missingField _ => "MISSING_FIELD"
  | .typeMismatch _ _ _ _ => "TYPE_MISMATCH"
  | .invalidNode _ => "INVALID_NODE"
  | .ruleNotFound _ => "RULE_NOT_FOUND"
  | .validation _ => "VALIDATION_ERROR"
  | .json _ => "JSON_ERROR"

/-- The status of a response that reports the error. -/
def status : RuleError → Nat
  | .ruleNotFound _ => 404
  | _ => 400

/-- Whether the error arises from reading rule text. -/
def isParseError : RuleError → Bool
  | .emptyInput | .malformed _ _ | .stackUnderflow _ _ => true
  | _ => false

/-- Whether the error arises from deciding a tree. -/
def isEvaluationError : RuleError → Bool
  | .missingField _ | .typeMismatch _ _ _ _ | .invalidNode _ => true
  | _ => false

end RuleError

end PostfixRules
