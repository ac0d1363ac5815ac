import CabScript.Error
import CabScript.Instruction.Basic

/-!
# Admission

A script is admitted only if its evaluation can break no bound of the machine. The check walks over
the instructions up to the first `halt` and counts: how many values are on the stack, how many
constants are left, and how deep the stack gets. What follows a `halt` never runs and is not looked
at.

## Main definitions

* `Budget`: the counts between two instructions, `Budget.spend`: the counts after one.
* `requiredDepth`: the depth that a list of instructions needs, or the first fault.
-/

namespace CabScript

/-- The counts between two instructions. -/
structure Budget where
  /-- How many values are on the stack. -/
  depth : Nat
  /-- How many constants are left in the pool. -/
  unread : Nat
  /-- The greatest depth so far. -/
  deepest : Nat
deriving DecidableEq, Repr

namespace Budget

/-- Depths are counted in words of 64 bits. -/
def depthLimit : Nat := UInt64.size

/-- The counts after an instruction at an address. A pool that runs out is reported before a stack
that does. -/
def spend (b : Budget) (address : Nat) (i : Instruction) : Except Error Budget :=
  let depth := b.depth - i.pops + i.pushes
  if b.unread < i.poolUse then
    .error ⟨.poolMismatch, some address, "constant pool exhausted"⟩
  else if b.depth < i.pops then .error ⟨.stackUnderflow, some address, ""⟩
  else if depthLimit ≤ depth then .error ⟨.stackOverflow, some address, ""⟩
  else .ok ⟨depth, b.unread - i.poolUse, max b.deepest depth⟩

/-- The greatest depth, if a single value is left at the end. -/
def close (b : Budget) (address : Nat) : Except Error Nat :=
  if b.depth = 1 then .ok b.deepest
  else .error ⟨.unbalancedStack, some address, "exactly one value must remain"⟩

/-- Walks over instructions of which the first is at `address`. -/
def walk (address : Nat) : List Instruction → Budget → Except Error Nat
  | [], b => b.close address
  | .halt :: _, b => b.close address
  | i :: rest, b =>
    match b.spend address i with
    | .ok b => walk (address + 1) rest b
    | .error e => .error e

end Budget

/-- The depth of the stack that a list of instructions needs with a pool of a size. -/
def requiredDepth (code : List Instruction) (poolSize : Nat) : Except Error Nat :=
  Budget.walk 0 code ⟨0, poolSize, 0⟩

end CabScript
