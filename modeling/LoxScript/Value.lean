import LoxScript.Token

/-!
# Values

What an expression can evaluate to.  Numbers compare as floating-point numbers do, so a number that
is not a number differs from itself; values of different types are never equal.
-/

namespace LoxScript

/-- The types of values. -/
inductive ValueType where
  | number | string | boolean | nil
  deriving DecidableEq, Repr

/-- The name of a type in messages. -/
def ValueType.name : ValueType → Bytes
  | number => utf8 "NUMBER"
  | string => utf8 "STRING"
  | boolean => utf8 "BOOLEAN"
  | nil => utf8 "NIL"

/-- A value. -/
inductive Value where
  | nil
  | boolean (b : Bool)
  | number (x : Float)
  | string (s : Bytes)
  deriving DecidableEq

namespace Value

/-- The type of a value. -/
def type : Value → ValueType
  | nil => .nil
  | boolean _ => .boolean
  | number _ => .number
  | string _ => .string

/-- How a value is printed. -/
def inspect : Value → Bytes
  | nil => utf8 "nil"
  | boolean b => Bytes.ofBool b
  | number x => writeNumber Decimal.positional x
  | string s => s

/-- Does the value count as true?  All do but `nil` and `false`. -/
def isTruthy : Value → Bool
  | nil => false
  | boolean b => b
  | _ => true

/-- Are two values equal for a program? -/
def equal : Value → Value → Bool
  | nil, nil => true
  | boolean a, boolean b => a == b
  | number x, number y => x == y
  | string s, string t => s == t
  | _, _ => false

/-- Where there may be no value at all, its absence counts as false. -/
def isTruthyIfAny (v : Option Value) : Bool :=
  v.any isTruthy

/-- Where there may be no value at all, its absence is equal to nothing but itself. -/
def equalIfAny : Option Value → Option Value → Bool
  | none, none => true
  | some a, some b => a.equal b
  | _, _ => false

end Value

end LoxScript
