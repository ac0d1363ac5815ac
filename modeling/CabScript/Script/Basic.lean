import CabScript.Instruction.Stream
import CabScript.Machine.Stack
import CabScript.Script.Admission

/-!
# Scripts

A script is a list of instructions with its pool of constants, admitted for a stack of a fixed
capacity. From one evaluation to the next it keeps its last result.

## Main definitions

* `Script`: every script carries the evidence that it was admitted.
* `Script.ofCode`, `Script.ofCodeWithCapacity`, `Script.ofStream`: the ways to make one.
* `Script.encode`: its instructions as a raw stream.
* `Script.isConstant`: whether it yields the same whenever it is evaluated.
-/

namespace CabScript

/-- An admitted script. -/
structure Script where
  /-- The instructions. -/
  code : List Instruction
  /-- The pool of constants. -/
  constants : List Float
  /-- The stack as the last evaluation left it. -/
  stack : Stack
  /-- The result of the last evaluation that succeeded. -/
  lastResult : Float := 0.0
  /-- The stack is deep enough. -/
  admitted : ∃ depth ≤ stack.capacity, requiredDepth code constants.length = .ok depth

namespace Script

/-- A script with a stack of a capacity that is known to suffice, if there is memory for it. -/
def assemble (code : List Instruction) (constants : List Float) (capacity : Nat)
    (admitted : ∃ depth ≤ capacity, requiredDepth code constants.length = .ok depth) :
    Except Error Script :=
  match h : Stack.ofCapacity? capacity with
  | some stack =>
    .ok { code, constants, stack, admitted := Stack.capacity_of_ofCapacity? h ▸ admitted }
  | none => .error ⟨.stackOverflow, none, "capacity cannot be allocated"⟩

/-- A script with a stack that is just deep enough. -/
def ofCode (code : List Instruction) (constants : List Float) : Except Error Script :=
  match h : requiredDepth code constants.length with
  | .ok depth => assemble code constants depth ⟨depth, Nat.le_refl depth, h⟩
  | .error e => .error e

/-- A script with a stack of a given capacity. -/
def ofCodeWithCapacity (code : List Instruction) (constants : List Float) (capacity : Nat) :
    Except Error Script :=
  match h : requiredDepth code constants.length with
  | .ok depth =>
    if fits : depth ≤ capacity then assemble code constants capacity ⟨depth, fits, h⟩
    else .error ⟨.stackOverflow, none, "capacity is below the required depth"⟩
  | .error e => .error e

/-- A script from a raw stream, with a stack that is just deep enough. -/
def ofStream (stream : List UInt16) (constants : List Float) : Except Error Script :=
  match Instruction.decode stream with
  | some code => ofCode code constants
  | none =>
    .error ⟨.missingOperand, some (stream.length - 1), "constant array without a count"⟩

/-- The raw stream of the instructions. -/
def encode (s : Script) : Except Error (List UInt16) :=
  match Instruction.encode s.code with
  | some stream => .ok stream
  | none =>
    .error ⟨.operandOutOfRange, some (s.code.findIdx (!·.isEncodable)), "constant array count"⟩

/-- Sets the stack to another one of the same capacity. -/
def withStack (s : Script) (stack : Stack) (h : stack.capacity = s.stack.capacity) : Script :=
  { s with stack, admitted := h ▸ s.admitted }

/-- Sets what the next evaluation takes for the result of the previous one. -/
def withLastResult (s : Script) (x : Float) : Script :=
  { s with lastResult := x }

/-- Whether all evaluations have the same result, so that one is enough. -/
def isConstant (s : Script) : Bool :=
  s.code.all Instruction.isPure

end Script

end CabScript
