import CabScript.Machine.Effect

/-!
# Runs

A run takes the steps of a list of instructions up to the first `halt`. There are no jumps, so it
takes each step once and always ends.
-/

namespace CabScript

/-- Where a run ends. -/
structure Ending (γ : Type) where
  /-- Why it could not go on; nothing if it reached a `halt` or the end. -/
  failure : Option Failure
  /-- The pass before the step that could not be taken, or else at the end. -/
  pass : Pass γ

/-- Runs instructions of which the first is at `address`. -/
def run {γ : Type} [WordSource γ] (setting : Setting) (address : Nat) :
    List Instruction → Pass γ → Ending γ
  | [], p => ⟨none, p⟩
  | .halt :: _, p => ⟨none, p⟩
  | i :: rest, p =>
    match i.step setting address p with
    | .ok p => run setting (address + 1) rest p
    | .error failure => ⟨some failure, p⟩

/-- A run keeps the capacity of the stack, wherever it ends. -/
theorem capacity_run {γ : Type} [WordSource γ] (setting : Setting) (address : Nat)
    (code : List Instruction) (p : Pass γ) :
    (run setting address code p).pass.stack.capacity = p.stack.capacity := by
  fun_induction run setting address code p with
  | case1 | case2 | case4 => rfl
  | case3 address i rest p _ p' h ih => exact ih.trans (capacity_of_step h)

end CabScript
