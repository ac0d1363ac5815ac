import CabScript.Number.Exact

/-!
# Total arithmetic on doubles

Scripts never stop at a number: where an operation is undefined it yields `0.0`. Truth values are
`1.0` and `0.0`, and every number other than zero counts as true.
-/

namespace CabScript.Number

/-- The truth value of a condition. -/
def ofBool (b : Bool) : Float :=
  if b then 1.0 else 0.0

/-- Whether a number counts as true. A NaN does. -/
def isTrue (x : Float) : Bool :=
  x != 0.0

/-- The logarithm that `ln` has above zero; `0.0` elsewhere. -/
def logBy (ln : Float → Float) (x : Float) : Float :=
  if x ≤ 0.0 then 0.0 else ln x

/-- Natural logarithm; `0.0` where it is undefined. -/
def log (x : Float) : Float :=
  logBy Float.log x

/-- Square root; `0.0` of a negative number. -/
def sqrt (x : Float) : Float :=
  if x < 0.0 then 0.0 else x.sqrt

/-- The ratio of a circle's circumference to its diameter. -/
def pi : Float := 3.141592653589793

/-- Half the width of the window around an asymptote of the tangent, for each whole unit of the
argument. -/
def asymptoteWidth : Float := 1.38462643383279e-16

/-- The tangent that `tan` has; `0.0` close to an odd multiple of a quarter turn. -/
def tanBy (tan : Float → Float) (x : Float) : Float :=
  let turns := x / pi
  -- how far the argument is from an asymptote, in half turns
  let away := turns - floor turns - 0.5
  let width := floor x.abs * asymptoteWidth
  if -width ≤ away && away ≤ width then 0.0 else tan x

/-- Tangent; `0.0` close to an odd multiple of a quarter turn. -/
def tan (x : Float) : Float :=
  tanBy Float.tan x

/-- `-1.0`, `0.0` or `1.0`; zero and NaN have sign `0.0`. -/
def sign (x : Float) : Float :=
  if x > 0.0 then 1.0 else if x < 0.0 then -1.0 else 0.0

/-- One over `x`; `0.0` for zero. -/
def reciprocal (x : Float) : Float :=
  if x == 0.0 then 0.0 else 1.0 / x

/-- Quotient; `0.0` on division by zero. -/
def divide (a b : Float) : Float :=
  if b == 0.0 then 0.0 else a / b

/-- Whole part of the quotient, rounded down; `0.0` on division by zero. -/
def quotient (a b : Float) : Float :=
  if b == 0.0 then 0.0 else floor (a / b)

/-- What `a` leaves over a whole number of times `b`, the quotient rounded down; `0.0` on division
by zero. -/
def modulo (a b : Float) : Float :=
  if b == 0.0 then 0.0 else a - b * floor (a / b)

/-- Power. Exponents `2` to `8` are multiplied out from squares and cubes, and a negative exponent
gives `0.0`. -/
def power (a exponent : Float) : Float :=
  let square := a * a
  let cube := a * a * a
  if exponent == 2.0 then square
  else if exponent == 3.0 then cube
  else if exponent == 4.0 then square * square
  else if exponent == 5.0 then square * square * a
  else if exponent == 6.0 then cube * cube
  else if exponent == 7.0 then cube * cube * a
  else if exponent == 8.0 then (square * square) * (square * square)
  else if exponent == 0.0 then 1.0
  else if exponent < 0.0 then 0.0
  else a.pow exponent

/-- The smaller operand; the second unless the first is strictly less. -/
def min (a b : Float) : Float :=
  if a < b then a else b

/-- The greater operand; the second unless the first is strictly greater. -/
def max (a b : Float) : Float :=
  if a > b then a else b

/-- Product and sum, each rounded. -/
def multiplyAdd (a b c : Float) : Float :=
  a * b + c

/-- The second operand if the first counts as true, else the third. -/
def choose (condition whenTrue whenFalse : Float) : Float :=
  if isTrue condition then whenTrue else whenFalse

end CabScript.Number
