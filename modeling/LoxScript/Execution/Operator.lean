import LoxScript.Execution.RuntimeError

/-!
# Operators

What an operator does with the values of its operands.  The kind of its token decides; the values of
both operands are known before anything is checked.
-/

namespace LoxScript

/-- Applies an operator to the value after it. -/
def applyUnary (operator : Token) (right : Value) : Except RuntimeError Value :=
  match operator.kind with
  | .sign .bang => .ok (.boolean !right.isTruthy)
  | .sign .minus =>
    match right with
    | .number x => .ok (.number (-x))
    | _ => .error (.type operator (.operand right.type))
  | _ => .error (.type operator (.unknownUnary right.type))

/-- Adds two numbers, or joins two strings. -/
def add (operator : Token) : Value → Value → Except RuntimeError Value
  | .number x, .number y => .ok (.number (x + y))
  | .string s, .string t => .ok (.string (s ++ t))
  | left, right => .error (.type operator (.addends left.type right.type))

/-- Applies an operator to two numbers. -/
def applyNumeric (operator : Token) (x y : Float) : Except RuntimeError Value :=
  match operator.kind with
  | .sign .minus => .ok (.number (x - y))
  | .sign .star => .ok (.number (x * y))
  | .sign .slash => .ok (.number (x / y))
  | .sign .greater => .ok (.boolean (decide (x > y)))
  | .sign .greaterEqual => .ok (.boolean (decide (x ≥ y)))
  | .sign .less => .ok (.boolean (decide (x < y)))
  | .sign .lessEqual => .ok (.boolean (decide (x ≤ y)))
  | _ => .error (.type operator .unknownBinary)

/-- Applies an operator to the values on its two sides. -/
def applyBinary (operator : Token) (left right : Value) : Except RuntimeError Value :=
  match operator.kind with
  | .sign .equalEqual => .ok (.boolean (left.equal right))
  | .sign .bangEqual => .ok (.boolean !left.equal right)
  | .sign .plus => add operator left right
  | _ =>
    match left, right with
    | .number x, .number y => applyNumeric operator x y
    | _, _ => .error (.type operator (.operands left.type right.type))

end LoxScript
