import LoxScript.Text.Bytes

/-!
# Numerals

A numeral is a run of digits, in which a point may stand wherever a digit follows it.  Such a run
is a number only if it has at most one point and its value does not exceed the finite numbers.
-/

namespace LoxScript

namespace Numeral

/-- The point between the whole and the fractional digits. -/
def point : UInt8 := 46

/-- How many bytes at the front of a text continue a numeral. -/
def extent : Bytes → Nat
  | [] => 0
  | b :: rest =>
    if Bytes.isDigit b then extent rest + 1
    else if b = point then
      match rest with
      | d :: _ => if Bytes.isDigit d then extent rest + 1 else 0
      | [] => 0
    else 0

/-- The natural number written by a run of digits. -/
def natural (digits : Bytes) : Nat :=
  digits.foldl (fun n b => 10 * n + (b.toNat - 48)) 0

/-- The number nearest to what a numeral says.  There is none when the numeral has two points, or
when it lies beyond the greatest finite number. -/
def value? (text : Bytes) : Option Float :=
  let whole := text.takeWhile Bytes.isDigit
  let fraction := (text.dropWhile Bytes.isDigit).drop 1
  if fraction.all Bytes.isDigit then
    let x := Float.ofScientific (natural (whole ++ fraction)) true fraction.length
    if x.isInf then none else some x
  else none

end Numeral

end LoxScript
