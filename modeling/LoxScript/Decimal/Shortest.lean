/-!
# The shortest decimal of a binary number

A finite number of the 64-bit binary format is `m * 2 ^ q` with natural `m`.  The reals that round
to it form an interval around it, whose ends count when `m` is even.  `Binary64.shortest` looks for
a decimal in that interval with as few digits as possible: for one digit, two digits and so on it
tries the two neighbours of the number on the grid of that many digits.  If a grid has a point in
the interval at all, one of the two neighbours is in it; of two hits the nearer is taken, and the
even one when both are equally near.  All of it is exact arithmetic on natural numbers.
-/

namespace LoxScript

/-- The number `coefficient * 10 ^ exponent`. -/
structure Decimal where
  coefficient : Nat
  exponent : Int
  deriving DecidableEq, Repr

/-- The number `mantissa * 2 ^ exponent`, as a 64-bit binary number stores it. -/
structure Binary64 where
  mantissa : Nat
  exponent : Int
  /-- Is the number below only half as far away as the one above? -/
  narrow : Bool
  deriving DecidableEq, Repr

namespace Binary64

/-- The magnitude stored in the bits of a finite number. -/
def ofBits (bits : UInt64) : Binary64 :=
  let fraction : Nat := bits.toNat % Nat.pow 2 52
  let biased : Nat := bits.toNat / Nat.pow 2 52 % Nat.pow 2 11
  if biased = 0 then ⟨fraction, -1074, false⟩
  else ⟨Nat.pow 2 52 + fraction, (biased : Int) - 1075, fraction == 0 && 1 < biased⟩

/-- The numerator of `b ^ e` as a fraction of natural numbers. -/
def powNum (b : Nat) (e : Int) : Nat := b.pow e.toNat

/-- The denominator of `b ^ e` as a fraction of natural numbers. -/
def powDen (b : Nat) (e : Int) : Nat := b.pow (-e).toNat

/-- The numerator of a quarter of the gap to the next number above. -/
def quarterNum (x : Binary64) : Nat := powNum 2 (x.exponent - 2)

/-- The denominator of a quarter of the gap to the next number above. -/
def quarterDen (x : Binary64) : Nat := powDen 2 (x.exponent - 2)

/-- The lower end of the interval that rounds to `x`, in quarters. -/
def lower (x : Binary64) : Nat := 4 * x.mantissa - (if x.narrow then 1 else 2)

/-- The upper end of the interval that rounds to `x`, in quarters. -/
def upper (x : Binary64) : Nat := 4 * x.mantissa + 2

/-- Does `c * 10 ^ e` round to `x`? -/
def covers (x : Binary64) (c : Nat) (e : Int) : Bool :=
  let point := c * powNum 10 e * x.quarterDen
  let low := x.lower * x.quarterNum * powDen 10 e
  let high := x.upper * x.quarterNum * powDen 10 e
  if x.mantissa % 2 = 0 then low ≤ point && point ≤ high else low < point && point < high

/-- The number of digits of `n` in decimal. -/
def digitCount (n : Nat) : Nat := (Nat.toDigits 10 n).length

/-- The `k` with `10 ^ (k - 1) ≤ x < 10 ^ k`, for a positive `x`. -/
def magnitude (x : Binary64) : Int :=
  let num := x.mantissa * powNum 2 x.exponent
  let den := powDen 2 x.exponent
  if den ≤ num then digitCount (num / den) else 1 - digitCount ((den - 1) / num)

/-- The point nearest to `x` among its two neighbours on the grid of `10 ^ e` that round to it. -/
def neighbour? (x : Binary64) (e : Int) : Option Nat :=
  let num := 4 * x.mantissa * x.quarterNum * powDen 10 e
  let den := powNum 10 e * x.quarterDen
  let below := num / den
  let above := below + 1
  let nearer :=
    if 2 * (num % den) < den then below
    else if den < 2 * (num % den) then above
    else if below % 2 = 0 then below
    else above
  if x.covers nearer e then some nearer
  else if x.covers below e then some below
  else if x.covers above e then some above
  else none

/-- The decimal with trailing zeros of its coefficient moved into the exponent, at most `fuel`. -/
def strip : Nat → Decimal → Decimal
  | 0, d => d
  | fuel + 1, d =>
    if d.coefficient % 10 = 0 ∧ d.coefficient ≠ 0 then
      strip fuel ⟨d.coefficient / 10, d.exponent + 1⟩
    else d

/-- The shortest decimal that rounds to `x`.  Seventeen digits are always enough. -/
def shortest (x : Binary64) : Decimal :=
  if x.mantissa = 0 then ⟨0, 0⟩
  else
    let k := x.magnitude
    let found := (List.range 17).findSome? fun i =>
      let e := k - (i + 1 : Nat)
      (x.neighbour? e).map fun c => (⟨c, e⟩ : Decimal)
    strip 17 (found.getD ⟨0, 0⟩)

end Binary64

end LoxScript
