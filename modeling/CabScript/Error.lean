/-!
# Errors

Why a script is refused, or stops while it runs. Every cause has a number and a phrase; an error
adds the address of the instruction at fault and a note, where there are any.
-/

namespace CabScript

/-- The causes of an error. -/
inductive Fault where
  /-- A raw code outside the instruction set was reached. -/
  | unknownInstruction
  /-- An instruction that scripts may not use was reached. -/
  | reservedInstruction
  /-- An instruction takes more values than there are. -/
  | stackUnderflow
  /-- The values do not fit the stack. -/
  | stackOverflow
  /-- The script leaves no value, or more than one. -/
  | unbalancedStack
  /-- More constants are asked for than the pool holds. -/
  | poolMismatch
  /-- The stream ends before an operand. -/
  | missingOperand
  /-- An operand does not fit a raw code. -/
  | operandOutOfRange
deriving DecidableEq, Repr

namespace Fault

/-- The number of the cause. -/
def number : Fault → Nat
  | unknownInstruction => 1
  | reservedInstruction => 2
  | stackUnderflow => 3
  | stackOverflow => 4
  | unbalancedStack => 5
  | poolMismatch => 6
  | missingOperand => 7
  | operandOutOfRange => 8

/-- The phrase that names the cause. -/
def phrase : Fault → String
  | unknownInstruction => "unknown instruction"
  | reservedInstruction => "instruction is for internal use only"
  | stackUnderflow => "stack underflow"
  | stackOverflow => "stack overflow"
  | unbalancedStack => "unbalanced stack"
  | poolMismatch => "constant pool mismatch"
  | missingOperand => "missing operand"
  | operandOutOfRange => "operand out of range"

/-- Whether the cause can stop a script that was admitted. -/
def isFatal : Fault → Bool
  | unknownInstruction | reservedInstruction => true
  | _ => false

end Fault

/-- An error. -/
structure Error where
  /-- The cause. -/
  fault : Fault
  /-- The address of the instruction at fault. -/
  address : Option Nat := none
  /-- A remark, empty if there is nothing to say. -/
  note : String := ""
deriving DecidableEq, Repr

namespace Error

/-- The text of the address, empty without one. -/
def addressText (e : Error) : String :=
  match e.address with
  | some address => " at " ++ toString address
  | none => ""

/-- The text of the note, empty without one. -/
def noteText (e : Error) : String :=
  if e.note.isEmpty then "" else "; " ++ e.note

/-- The error in words. -/
def message (e : Error) : String :=
  e.fault.phrase ++ e.addressText ++ e.noteText

/-- The error in words, marked as an error. -/
def inspection (e : Error) : String :=
  "Error \x7b " ++ e.message ++ " \x7d"

instance : ToString Error where
  toString := message

end Error

end CabScript
