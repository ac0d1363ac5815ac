import CabScript.Number.Exact

/-!
# The fewest digits that identify a double

A decimal identifies a positive double when it lies among the reals that round to it. `shortest`
picks, among the decimals with the fewest digits that do so, the one nearest to the double.

## Main definitions

* `Decimal`: `digits · 10 ^ exponent`.
* `Positive`: a positive finite double as `mantissa · 2 ^ exponent`.
* `Positive.identifies`: whether a decimal rounds to the double.
* `Positive.shortest`: the decimal that is written.

## How the search goes

The decimals with `n` digits near the double lie on the grid of multiples of one power of ten. If
any point of a grid identifies the double, one of the two grid points around the double does, so for
`n = 1, 2, …` only these two are tried. Ends of the rounding interval belong to it exactly when the
mantissa is even, and below a power of two the lower half of the interval is half as wide.
-/

namespace CabScript

open Float.Model (UnpackedFloat)

/-- The number `digits · 10 ^ exponent`. -/
structure Decimal where
  /-- The decimal digits, read as one natural number. -/
  digits : Nat
  /-- The power of ten they are multiplied by. -/
  exponent : Int
deriving DecidableEq, Repr

/-- A positive finite double, `mantissa · 2 ^ exponent`. -/
structure Positive where
  /-- The integer factor, of at most 53 bits. -/
  mantissa : Nat
  /-- The power of two it is multiplied by. -/
  exponent : Int
  /-- The value is not zero. -/
  mantissa_pos : 0 < mantissa

namespace Positive

/-- Whether the gap to the next double below is half the gap to the next one above: at the powers
of two other than the least ones. -/
def narrowBelow (x : Positive) : Bool :=
  x.mantissa == 1 <<< 52 && -1074 < x.exponent

/-- The lower end of the rounding interval, in quarters of the last binary place. -/
def lowerQuarters (x : Positive) : Nat :=
  4 * x.mantissa - if x.narrowBelow then 1 else 2

/-- The upper end of the rounding interval, in quarters of the last binary place. -/
def upperQuarters (x : Positive) : Nat :=
  4 * x.mantissa + 2

/-- The factors that bring a decimal with exponent `e` and quarters of the last binary place of `x`
to a common unit: the decimal's digits are multiplied by the first, the quarters by the second. -/
def commonUnit (x : Positive) (e : Int) : Nat × Nat :=
  let q := x.exponent - 2
  (Nat.pow 10 e.toNat <<< (-q).toNat, Nat.pow 10 (-e).toNat <<< q.toNat)

/-- Whether `c` units of size `unit.1` lie in the rounding interval. -/
def within (x : Positive) (unit : Nat × Nat) (c : Nat) : Bool :=
  let low := x.lowerQuarters * unit.2
  let high := x.upperQuarters * unit.2
  let point := c * unit.1
  if x.mantissa % 2 = 0 then low ≤ point && point ≤ high else low < point && point < high

/-- Whether a decimal identifies the double: it lies among the reals that round to it. -/
def identifies (x : Positive) (d : Decimal) : Bool :=
  x.within (x.commonUnit d.exponent) d.digits

/-- The decimal on the grid of multiples of `10 ^ e` that identifies the double, if there is one;
the nearer of two, and of two equally near ones the greater. -/
def onGrid? (x : Positive) (e : Int) : Option Decimal :=
  let unit := x.commonUnit e
  let value := 4 * x.mantissa * unit.2
  let below := value / unit.1
  match x.within unit below, x.within unit (below + 1) with
  | false, false => none
  | true, false => some ⟨below, e⟩
  | false, true => some ⟨below + 1, e⟩
  | true, true =>
    if 2 * value < (2 * below + 1) * unit.1 then some ⟨below, e⟩ else some ⟨below + 1, e⟩

/-- Whether the double is less than `10 ^ k`. -/
def belowPowerOfTen (x : Positive) (k : Int) : Bool :=
  let unit := x.commonUnit k
  4 * x.mantissa * unit.2 < unit.1

/-- The number of decimal places before the point that the double fills: the least `k` for which it
is less than `10 ^ k`. Its binary length bounds it from below and is at most three short. -/
def magnitude (x : Positive) : Int :=
  let estimate := (((x.mantissa.log2 : Int) + x.exponent) * 30103).fdiv 100000
  ([estimate, estimate + 1, estimate + 2].find? x.belowPowerOfTen).getD (estimate + 3)

/-- The exact decimal value of the double. -/
def exactDecimal (x : Positive) : Decimal :=
  ⟨(x.mantissa <<< x.exponent.toNat) * Nat.pow 5 (-x.exponent).toNat, min 0 x.exponent⟩

/-- Drops trailing zeros, at most `limit` of them. -/
def stripZeros : Nat → Decimal → Decimal
  | 0, d => d
  | limit + 1, d =>
    if d.digits % 10 = 0 then stripZeros limit ⟨d.digits / 10, d.exponent + 1⟩ else d

/-- The shortest decimal that identifies the double, nearest to it among those, with no trailing
zero. Seventeen digits always suffice; were they not to, the exact value would be taken. -/
def shortest (x : Positive) : Decimal :=
  let k := x.magnitude
  let found := (List.range 17).findSome? fun (n : Nat) => x.onGrid? (k - (n + 1))
  -- only carries such as 9.99… to 10 leave trailing zeros
  stripZeros 20 (found.getD x.exactDecimal)

end Positive

end CabScript
