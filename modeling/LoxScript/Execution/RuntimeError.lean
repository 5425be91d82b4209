import LoxScript.Value

/-!
# What can go wrong in a run

A program fails when it names a variable that is not there, or applies an operator to values of the
wrong types.  A tree put together by hand can fail in more ways: it may have holes, operators that
do not exist, or literals that are no values.  Finally, the place that the output goes to may refuse
it.
-/

namespace LoxScript

/-- Why an operator cannot be applied. -/
inductive TypeError where
  /-- The operand has to be a number. -/
  | operand (got : ValueType)
  /-- Both operands have to be numbers. -/
  | operands (left right : ValueType)
  /-- Only two numbers or two strings can be added. -/
  | addends (left right : ValueType)
  /-- No such operator stands before an operand. -/
  | unknownUnary (got : ValueType)
  /-- No such operator stands between operands. -/
  | unknownBinary
  deriving DecidableEq, Repr

/-- What went wrong in a run. -/
inductive RuntimeError where
  /-- A variable is not there. -/
  | undefined (name : Bytes) (line : Int)
  /-- An operator cannot be applied. -/
  | type (operator : Token) (cause : TypeError)
  /-- A literal is no value. -/
  | unsupportedLiteral (n : Int)
  /-- An expression is missing. -/
  | missingExpression
  /-- A statement is missing. -/
  | missingStatement
  /-- The output was refused. -/
  | refused (reason : Bytes)
  deriving DecidableEq

/-- Why the operator cannot be applied, in words. -/
def TypeError.detail (operator : Token) : TypeError → Bytes
  | operand got => utf8 "operand must be a number, got " ++ got.name
  | operands left right =>
    utf8 "operands must be numbers, got " ++ left.name ++ utf8 " and " ++ right.name
  | addends left right =>
    utf8 "operands must be two numbers or two strings, got " ++ left.name ++ utf8 " and "
      ++ right.name
  | unknownUnary got => utf8 "unknown operator: " ++ operator.lexeme ++ got.name
  | unknownBinary => utf8 "unknown operator: " ++ operator.lexeme

namespace RuntimeError

/-- The message for whoever runs the program. -/
def message : RuntimeError → Bytes
  | undefined name line =>
    utf8 "[line " ++ Bytes.ofInt line ++ utf8 "] Error: undefined variable '" ++ name ++ utf8 "'"
  | type operator cause =>
    utf8 "[line " ++ Bytes.ofInt operator.line ++ utf8 "] Error at '" ++ operator.lexeme
      ++ utf8 "': " ++ cause.detail operator
  | unsupportedLiteral n => utf8 "unsupported literal value " ++ Bytes.ofInt n ++ utf8 " (int)"
  | missingExpression => utf8 "unknown expression type <nil>"
  | missingStatement => utf8 "unknown statement type <nil>"
  | refused reason => reason

/-- Is the program itself to blame? -/
def isProgramError : RuntimeError → Bool
  | undefined _ _ | type _ _ => true
  | _ => false

end RuntimeError

/-- The value that a literal denotes. -/
def Value.ofLiteral : Literal → Except RuntimeError Value
  | .nil => .ok .nil
  | .number x => .ok (.number x)
  | .string s => .ok (.string s)
  | .boolean b => .ok (.boolean b)
  | .integer n => .error (.unsupportedLiteral n)

end LoxScript
