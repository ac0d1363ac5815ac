import CabScript.Arithmetic.Operator
import CabScript.Arithmetic.Random
import CabScript.Instruction.Query

/-!
# The instruction set

Instructions work on a stack of numbers. There are no registers and no jumps: the text
`speedometer abs 3.6 *` is the code `speedometer`, `abs`, `constant`, `*` with `3.6` as its only
constant.

## Main definitions

* `Instruction`.
* `Instruction.pops`, `Instruction.pushes`, `Instruction.poolUse`: what an instruction takes and
  leaves.
* `Instruction.isPure`, `Instruction.takesCarIndex`: how it depends on the scene.
-/

namespace CabScript

/-- An instruction. -/
inductive Instruction where
  /-- Ends the evaluation; the top of the stack is the result. -/
  | halt
  /-- Pushes the next constant. -/
  | constant
  /-- Pushes the next `count` constants in their order. -/
  | constants (count : Nat)
  /-- Pushes the result of the previous evaluation. -/
  | previous
  /-- Pushes the top of the stack once more. -/
  | copy
  /-- Exchanges the two topmost values. -/
  | swap
  | unary (op : UnaryOp)
  | binary (op : BinaryOp)
  | ternary (op : TernaryOp)
  /-- Replaces two numbers by one drawn between them. -/
  | draw (d : Draw)
  | query (q : Query)
  | queryAt (q : IndexedQuery)
  /-- The timetable texture of a panel, which no script may use. -/
  | panelTimetable
  /-- A raw code that is taken for no instruction of the set. -/
  | unknown (code : UInt16)
deriving DecidableEq, Repr

namespace Instruction

/-- How many values the instruction takes from the stack. -/
def pops : Instruction → Nat
  | halt | constant | constants _ | previous | query _ | panelTimetable | unknown _ => 0
  | copy | unary _ | queryAt _ => 1
  | swap | binary _ | draw _ => 2
  | ternary _ => 3

/-- How many values the instruction leaves on the stack in their place. -/
def pushes : Instruction → Nat
  | halt | unknown _ => 0
  | constants count => count
  | constant | previous | query _ | panelTimetable => 1
  | unary _ | binary _ | ternary _ | draw _ | queryAt _ => 1
  | copy | swap => 2

/-- How many constants the instruction takes from the pool. -/
def poolUse : Instruction → Nat
  | constant => 1
  | constants count => count
  | _ => 0

/-- Whether the effect depends on nothing but the stack and the constants. -/
def isPure : Instruction → Bool
  | halt | constant | constants _ | copy | swap | unary _ | binary _ | ternary _ => true
  | previous | draw _ | query _ | queryAt _ | panelTimetable | unknown _ => false

/-- Whether the value that the instruction takes is the number of a car. -/
def takesCarIndex : Instruction → Bool
  | queryAt q => q.selectsCar
  | _ => false

end Instruction

end CabScript
