import LoxScript.Text.Bytes

/-!
# YAML nodes

A document is a tree of scalars, sequences and mappings, each with the line on which it starts.  The
text of a plain scalar decides what it means: nothing, a truth value, a number, or a string.  A
quoted scalar is always a string.
-/

namespace LoxScript.Yaml

/-- How a scalar is written. -/
inductive Style where
  | plain | quoted
  deriving DecidableEq, Repr

/-- A node of a document. -/
inductive Node where
  | scalar (line : Nat) (style : Style) (text : Bytes)
  | sequence (line : Nat) (items : List Node)
  | mapping (line : Nat) (entries : List (Node × Node))

/-- What a node means. -/
inductive Tag where
  | null | boolean | integer | floating | string | sequence | mapping
  deriving DecidableEq, Repr

/-- The name of a tag. -/
def Tag.name : Tag → Bytes
  | null => utf8 "!!null"
  | boolean => utf8 "!!bool"
  | integer => utf8 "!!int"
  | floating => utf8 "!!float"
  | string => utf8 "!!str"
  | sequence => utf8 "!!seq"
  | mapping => utf8 "!!map"

namespace Plain

/-- The texts that mean nothing. -/
def nulls : List Bytes := ["", "~", "null", "Null", "NULL"].map utf8

/-- The texts that mean true. -/
def trues : List Bytes := ["true", "True", "TRUE"].map utf8

/-- The texts that mean false. -/
def falses : List Bytes := ["false", "False", "FALSE"].map utf8

/-- The texts of the numbers that have no digits. -/
def specials : List Bytes :=
  [".nan", ".NaN", ".NAN", ".inf", ".Inf", ".INF", "+.inf", "+.Inf", "+.INF", "-.inf", "-.Inf",
   "-.INF"].map utf8

/-- The text of a number with the underscores between its digits removed. -/
def compact (text : Bytes) : Bytes :=
  text.filter (· ≠ 95)

/-- Is the byte a sign of a number? -/
def isSign (b : UInt8) : Bool :=
  b == 43 || b == 45

/-- The value of a digit in some base up to sixteen; letters of both cases are digits. -/
def digit? (b : UInt8) : Option Nat :=
  if Bytes.isDigit b then some (b.toNat - 48)
  else if 97 ≤ b ∧ b ≤ 102 then some (b.toNat - 87)
  else if 65 ≤ b ∧ b ≤ 70 then some (b.toNat - 55)
  else none

/-- The natural number that digits of the given base write, if they are such and there are any. -/
def natural? (base : Nat) (digits : Bytes) : Option Nat :=
  if digits = [] then none
  else
    digits.foldlM (fun n b =>
      match digit? b with
      | some d => if d < base then some (base * n + d) else none
      | none => none) 0

/-- The magnitude of a whole number.  A leading zero, with or without a letter after it, tells the
base. -/
def magnitude? (text : Bytes) : Option Nat :=
  match text with
  | 48 :: b :: rest =>
    if b = 120 ∨ b = 88 then natural? 16 rest
    else if b = 98 ∨ b = 66 then natural? 2 rest
    else if b = 111 ∨ b = 79 then natural? 8 rest
    else natural? 8 (b :: rest)
  | _ => natural? 10 text

/-- Is the text a whole number of at most 64 bits? -/
def isInteger (text : Bytes) : Bool :=
  match compact text with
  | 43 :: rest => (magnitude? rest).any (· < Nat.pow 2 63)
  | 45 :: rest => (magnitude? rest).any (· ≤ Nat.pow 2 63)
  | digits => (magnitude? digits).any (· < Nat.pow 2 64)

/-- Is a text what may follow the digits of a number: nothing, or an exponent? -/
def isExponent (text : Bytes) : Bool :=
  match text with
  | [] => true
  | e :: rest =>
    let digits := match rest with
      | b :: more => if isSign b then more else rest
      | [] => []
    (e == 101 || e == 69) && digits ≠ [] && digits.all Bytes.isDigit

/-- Is the number with the given digits and exponent finite?  Exponents of more than six digits are
beyond all that the digits could make up for. -/
def isFinite (digits : Bytes) (scale : Nat) (exponent : Bytes) : Bool :=
  let m := (natural? 10 digits).getD 0
  let negative := exponent.head? = some 45
  let size := exponent.filter Bytes.isDigit |>.dropWhile (· == 48)
  if m = 0 ∨ (negative ∧ 6 < size.length) then true
  else if 6 < size.length then false
  else
    let e : Int := (natural? 10 size).getD 0
    let power := (if negative then -e else e) - scale
    !(if power < 0 then Float.ofScientific m true power.natAbs
      else Float.ofScientific m false power.natAbs).isInf

/-- Is the text a number with a point or an exponent? -/
def isFloating (text : Bytes) : Bool :=
  let plain := compact text
  let body := match plain with
    | b :: rest => if isSign b then rest else plain
    | [] => []
  let whole := body.takeWhile Bytes.isDigit
  let after := body.dropWhile Bytes.isDigit
  let (fraction, rest) := match after with
    | 46 :: more => (more.takeWhile Bytes.isDigit, more.dropWhile Bytes.isDigit)
    | _ => ([], after)
  (whole ≠ [] || fraction ≠ []) && isExponent rest
    && isFinite (whole ++ fraction) fraction.length (rest.drop 1)

/-- What a plain scalar means. -/
def tag (text : Bytes) : Tag :=
  if nulls.contains text then .null
  else if trues.contains text || falses.contains text then .boolean
  else if specials.contains text then .floating
  else
    match text with
    | b :: _ =>
      if Bytes.isDigit b || isSign b then
        if isInteger text then .integer else if isFloating text then .floating else .string
      else if b == 46 && !text.contains 95 then if isFloating text then .floating else .string
      else .string
    | [] => .null

end Plain

namespace Node

/-- The node that stands where nothing is written. -/
def absent (line : Nat) : Node :=
  .scalar line .plain []

/-- The line on which a node starts. -/
def line : Node → Nat
  | scalar line _ _ | sequence line _ | mapping line _ => line

/-- What a node means. -/
def tag : Node → Tag
  | scalar _ .plain text => Plain.tag text
  | scalar _ .quoted _ => .string
  | sequence _ _ => .sequence
  | mapping _ _ => .mapping

/-- The text of a scalar. -/
def text : Node → Bytes
  | scalar _ _ text => text
  | _ => []

/-- Are two nodes both scalars, both sequences or both mappings, of one text? -/
def sameKey : Node → Node → Bool
  | scalar _ _ s, scalar _ _ t => s == t
  | sequence _ _, sequence _ _ => true
  | mapping _ _, mapping _ _ => true
  | _, _ => false

end Node

end LoxScript.Yaml
