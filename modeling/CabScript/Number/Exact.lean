/-!
# Exact values of doubles, and rounding to integers

A finite double is an integer times a power of two. Everything here works on that exact value, so
rounding to an integer is integer division and nothing depends on a floating-point library.

## Main definitions

* `Exact`, `Exact.ofFloat?`: the value of a finite double as `mantissa · 2 ^ exponent`.
* `Exact.floor`, `Exact.ceiling`, `Exact.halfEven`, `Exact.truncate`: rounding to an integer.
* `Number.floor`, `Number.ceiling`, `Number.round`: the same, back on doubles, sign of zero kept.
* `Number.nearestInt?`: the integer nearest to a finite double.
* `Number.ofInt`: the double nearest to an integer.
-/

namespace CabScript

open Float.Model (UnpackedFloat)
open Float.Model.UnpackedFloat (Sign)

/-- The exact value `mantissa · 2 ^ exponent` of a finite double. -/
structure Exact where
  /-- The signed integer factor. -/
  mantissa : Int
  /-- The power of two it is multiplied by. -/
  exponent : Int
deriving DecidableEq, Repr

namespace Exact

/-- The exact value of a double, or `none` for an infinity or a NaN. -/
def ofFloat? (x : Float) : Option Exact :=
  match x.toModel.unpack with
  | .zero _ => some ⟨0, 0⟩
  | .finite s m e _ => some ⟨s.apply m, e⟩
  | .infinity _ | .notANumber => none

/-- The numerator of the value over `denominator`. -/
def numerator (v : Exact) : Int :=
  v.mantissa <<< v.exponent.toNat

/-- The power of two below the fraction bar, `1` for an integral value. -/
def denominator (v : Exact) : Nat :=
  1 <<< (-v.exponent).toNat

/-- The greatest integer that is at most the value. -/
def floor (v : Exact) : Int :=
  v.numerator.fdiv v.denominator

/-- The least integer that is at least the value. -/
def ceiling (v : Exact) : Int :=
  -((-v.numerator).fdiv v.denominator)

/-- The integer part of the value: rounding toward zero. -/
def truncate (v : Exact) : Int :=
  v.numerator.tdiv v.denominator

/-- The integer nearest to the value; halfway between two integers, the even one. -/
def halfEven (v : Exact) : Int :=
  let below := v.floor
  let twice := 2 * (v.numerator - below * v.denominator)
  if twice < v.denominator then below
  else if v.denominator < twice then below + 1
  else if below % 2 = 0 then below
  else below + 1

end Exact

namespace Number

/-- The double nearest to an integer, in one rounding; exact up to `2 ^ 53`. -/
def ofInt (n : Int) : Float :=
  .ofModel (.ofInt n)

/-- The double nearest to a natural number. -/
def ofNat (n : Nat) : Float :=
  ofInt n

/-- The double of the given sign that is nearest to a natural number, with `-0.0` for a negative
zero. -/
def ofSignedNat (s : Sign) (k : Nat) : Float :=
  .ofModel (.pack (.round .binary64 s k 0))

/-- Applies a rounding rule to a double. What is integral already, infinite or NaN stays as it is,
and the result has the sign of the argument even when it is zero. -/
def toIntegral (rule : Exact → Int) (x : Float) : Float :=
  match x.toModel.unpack with
  | .finite s m e _ =>
    -- a finite double with a non-negative exponent has no fraction
    if 0 ≤ e then x else ofSignedNat s (rule ⟨s.apply m, e⟩).natAbs
  | .zero _ | .infinity _ | .notANumber => x

/-- The greatest integral double that is at most `x`. -/
def floor (x : Float) : Float :=
  toIntegral Exact.floor x

/-- The least integral double that is at least `x`. -/
def ceiling (x : Float) : Float :=
  toIntegral Exact.ceiling x

/-- The integral double nearest to `x`; halfway between two of them, the even one. -/
def round (x : Float) : Float :=
  toIntegral Exact.halfEven x

/-- The integer nearest to a double, halves to even, or `none` if it is not finite. -/
def nearestInt? (x : Float) : Option Int :=
  (Exact.ofFloat? x).map Exact.halfEven

/-- The 32-bit integer that a double stands for: its integer part, clamped to the range, and `0`
for a NaN. -/
def toInt32 (x : Float) : Int :=
  match x.toModel.unpack with
  | .notANumber => 0
  | .infinity .positive => 2147483647
  | .infinity .negative => -2147483648
  | .zero _ => 0
  | .finite s m e _ => max (-2147483648) (min 2147483647 (Exact.truncate ⟨s.apply m, e⟩))

end Number

end CabScript
