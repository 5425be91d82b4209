import LoxScript.Text.Bytes
import LoxScript.Decimal.Shortest

/-!
# Writing numbers

A number is written with the shortest digits that read back to it, in one of two layouts.  Values
are printed positionally, however large or small they are.  Where a token is described, very large
and very small numbers are written with an exponent instead.
-/

namespace LoxScript

namespace Decimal

/-- The digits of the coefficient. -/
def digits (d : Decimal) : Bytes :=
  Bytes.ofNat d.coefficient

/-- The power of ten of the first digit. -/
def leading (d : Decimal) : Int :=
  d.digits.length - 1 + d.exponent

/-- As many zeros as asked for. -/
def zeros (n : Nat) : Bytes :=
  List.replicate n (Bytes.ofAscii '0')

/-- The decimal without an exponent: the point stands where it belongs, between zeros if the digits
do not reach it. -/
def positional (d : Decimal) : Bytes :=
  let ds := d.digits
  let places := (-d.exponent).toNat
  if places = 0 then ds ++ zeros d.exponent.toNat
  else if places < ds.length then
    ds.take (ds.length - places) ++ utf8 "." ++ ds.drop (ds.length - places)
  else utf8 "0." ++ zeros (places - ds.length) ++ ds

/-- The decimal with one digit before the point and an exponent of at least two digits. -/
def scientific (d : Decimal) : Bytes :=
  let ds := d.digits
  let fraction := if ds.length ≤ 1 then [] else utf8 "." ++ ds.drop 1
  let sign := if d.leading < 0 then utf8 "-" else utf8 "+"
  let size := Bytes.ofNat d.leading.natAbs
  ds.take 1 ++ fraction ++ utf8 "e" ++ sign ++ zeros (2 - size.length) ++ size

/-- Positional while the first digit stands at a power of ten from `-4` to `5`, else scientific. -/
def compact (d : Decimal) : Bytes :=
  if d.coefficient ≠ 0 ∧ (d.leading < -4 ∨ 6 ≤ d.leading) then d.scientific else d.positional

end Decimal

/-- A number in the given layout of its digits.  The sign bit is shown, also that of zero; only the
positive infinity carries a plus sign. -/
def writeNumber (layout : Decimal → Bytes) (x : Float) : Bytes :=
  if x.isNaN then utf8 "NaN"
  else
    let negative := Nat.pow 2 63 ≤ x.toBits.toNat
    if x.isInf then (if negative then utf8 "-Inf" else utf8 "+Inf")
    else
      let magnitude := layout (Binary64.ofBits x.toBits).shortest
      if negative then utf8 "-" ++ magnitude else magnitude

end LoxScript
