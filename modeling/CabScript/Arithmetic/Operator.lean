import CabScript.Arithmetic.Total

/-!
# Operators

The operators of the instruction set on one, two and three numbers, and what each computes.
-/

namespace CabScript

/-- An operator on one number. -/
inductive UnaryOp where
  | negate | reciprocal | increment | decrement
  | floor | ceiling | round | abs | sign
  | exp | log | sqrt | sin | cos | tan | arctan
  | not
deriving DecidableEq, Repr

/-- An operator on two numbers. -/
inductive BinaryOp where
  | add | subtract | multiply | divide | power | quotient | modulo | min | max
  | equal | unequal | less | greater | lessEqual | greaterEqual
  | and | or | nand | nor | xor
deriving DecidableEq, Repr

/-- An operator on three numbers. -/
inductive TernaryOp where
  /-- Product of the first two, plus the third. -/
  | multiplyAdd
  /-- Choice between the last two by the first. -/
  | choose
deriving DecidableEq, Repr

/-- The value of a unary operator. -/
def UnaryOp.apply : UnaryOp → Float → Float
  | negate, a => -a
  | reciprocal, a => Number.reciprocal a
  | increment, a => a + 1.0
  | decrement, a => a - 1.0
  | floor, a => Number.floor a
  | ceiling, a => Number.ceiling a
  | round, a => Number.round a
  | abs, a => a.abs
  | sign, a => Number.sign a
  | exp, a => a.exp
  | log, a => Number.log a
  | sqrt, a => Number.sqrt a
  | sin, a => a.sin
  | cos, a => a.cos
  | tan, a => Number.tan a
  | arctan, a => a.atan
  | not, a => Number.ofBool (!Number.isTrue a)

/-- The value of a binary operator on its left and right operand. -/
def BinaryOp.apply : BinaryOp → Float → Float → Float
  | add, a, b => a + b
  | subtract, a, b => a - b
  | multiply, a, b => a * b
  | divide, a, b => Number.divide a b
  | power, a, b => Number.power a b
  | quotient, a, b => Number.quotient a b
  | modulo, a, b => Number.modulo a b
  | min, a, b => Number.min a b
  | max, a, b => Number.max a b
  | equal, a, b => Number.ofBool (a == b)
  | unequal, a, b => Number.ofBool (a != b)
  | less, a, b => Number.ofBool (a < b)
  | greater, a, b => Number.ofBool (a > b)
  | lessEqual, a, b => Number.ofBool (a ≤ b)
  | greaterEqual, a, b => Number.ofBool (a ≥ b)
  | and, a, b => Number.ofBool (Number.isTrue a && Number.isTrue b)
  | or, a, b => Number.ofBool (Number.isTrue a || Number.isTrue b)
  | nand, a, b => Number.ofBool !(Number.isTrue a && Number.isTrue b)
  | nor, a, b => Number.ofBool !(Number.isTrue a || Number.isTrue b)
  | xor, a, b => Number.ofBool (Number.isTrue a != Number.isTrue b)

/-- The value of a ternary operator on its operands from left to right. -/
def TernaryOp.apply : TernaryOp → Float → Float → Float → Float
  | multiplyAdd, a, b, c => Number.multiplyAdd a b c
  | choose, a, b, c => Number.choose a b c

end CabScript
