import CabScript.Proofs.Outcome

/-!
# Code in a larger context

What a list of instructions does on its own it also does inside a longer script: on top of values
that others have left, with more room, in front of constants for others, and at another address.

## Main definitions

* `Pass.atop`: a pass with values below its own, more room and more constants.
* `Failure.shift`: a failure at an address further on.

## Main statements

* `run_atop`: a run never looks below its own values, nor behind its own constants.
* `run_shift`: the address of a run shows only in its error.
* `run_atop_shift`: both at once.
* `Budget.spendAll_atop`: the check counts the same from a higher start.
-/

namespace CabScript

open Instruction

/-! ## Other values, room and constants -/

section Atop

variable {γ : Type}

/-- A pass on top of other values, with more room above and more constants behind. -/
def Pass.atop (p : Pass γ) (base : List Float) (extra : Nat) (rest : List Float) : Pass γ where
  stack := ⟨p.stack.values ++ base, p.stack.room + extra⟩
  unread := p.unread ++ rest
  source := p.source

/-- A run that ends on top of other values. -/
def Ending.atop (e : Ending γ) (base : List Float) (extra : Nat) (rest : List Float) :
    Ending γ where
  failure := e.failure
  pass := e.pass.atop base extra rest

theorem Pass.Affords.atop {p : Pass γ} {i : Instruction} (h : p.Affords i) (base : List Float)
    (extra : Nat) (rest : List Float) : (p.atop base extra rest).Affords i where
  values := h.values.trans (by simp [Pass.atop])
  constants := h.constants.trans (by simp [Pass.atop])
  room := h.room.trans (by simp only [Pass.atop]; omega)

variable [WordSource γ]

/-- An instruction that finds what it needs takes nothing that lies below or behind it. -/
theorem Pass.Affords.advance_atop {p : Pass γ} {i : Instruction} (h : p.Affords i)
    (goesOn : i.isFatal = false) (setting : Setting) (base : List Float) (extra : Nat)
    (rest : List Float) :
    (p.atop base extra rest).advance setting i = (p.advance setting i).atop base extra rest := by
  have yields : (p.atop base extra rest).yield setting i = p.yield setting i := by
    simp only [Pass.yield, Pass.atop]
    rw [List.take_append_of_le_length h.values, List.take_append_of_le_length h.constants]
  have room := h.length_yield goesOn setting ▸ h.room
  simp only [Pass.advance, yields]
  simp only [Pass.atop, Stack.replaceTop, List.append_assoc]
  rw [List.drop_append_of_le_length h.values, List.drop_append_of_le_length h.constants]
  congr 2
  omega

/-- Where a step can be taken, it can be taken on top of other values, and leaves them there. -/
theorem step_atop {setting : Setting} {address : Nat} {p p' : Pass γ} {i : Instruction}
    (h : i.step setting address p = .ok p') (base : List Float) (extra : Nat)
    (rest : List Float) :
    i.step setting address (p.atop base extra rest) = .ok (p'.atop base extra rest) := by
  obtain ⟨goesOn, affords, rfl⟩ := step_eq_ok_iff.mp h
  rw [step_of_affords goesOn (affords.atop base extra rest), affords.advance_atop goesOn]

/-- **A run never looks below its own values, nor behind its own constants,** unless it breaks a
bound where there are none. -/
theorem run_atop {setting : Setting} {address : Nat} {l : List Instruction} {p : Pass γ}
    (safe : ∀ b, (run setting address l p).failure ≠ some (.breach b)) (base : List Float)
    (extra : Nat) (rest : List Float) :
    run setting address l (p.atop base extra rest) =
      (run setting address l p).atop base extra rest := by
  fun_induction run setting address l p with
  | case1 => rfl
  | case2 => rfl
  | case3 address i l p hi p' h ih =>
    rw [run_cons hi, step_atop h]
    exact ih safe
  | case4 address i l p hi failure h =>
    cases failure with
    | breach b => exact absurd rfl (safe b)
    | error e =>
      have again : i.step setting address (p.atop base extra rest) = .error (.error e) :=
        step_eq_error_iff.mpr (step_eq_error_iff.mp h)
      rw [run_cons hi, again]
      rfl

/-- A run that is not stopped has taken the constants of all its instructions. -/
theorem unread_run {setting : Setting} {address : Nat} {l : List Instruction} {p : Pass γ}
    (noHalt : halt ∉ l) (finished : (run setting address l p).failure = none) :
    (run setting address l p).pass.unread = p.unread.drop (totalPoolUse l) := by
  fun_induction run setting address l p with
  | case1 => rfl
  | case2 => simp at noHalt
  | case3 address i l p hi p' h ih =>
    obtain ⟨-, -, rfl⟩ := step_eq_ok_iff.mp h
    rw [ih (fun mem => noHalt (List.mem_cons_of_mem i mem)) finished, Pass.advance,
      List.drop_drop, totalPoolUse_cons]
  | case4 => cases finished

end Atop

/-! ## Another address -/

/-- The error at an address further on. -/
def Error.shift (e : Error) (offset : Nat) : Error :=
  { e with address := e.address.map (· + offset) }

@[simp] theorem Error.shift_zero (e : Error) : e.shift 0 = e := by
  simp [shift]

/-- The failure at an address further on. -/
def Failure.shift : Failure → Nat → Failure
  | error e, offset => error (e.shift offset)
  | breach b, _ => breach b

theorem fatalError?_add (i : Instruction) (address offset : Nat) :
    i.fatalError? (address + offset) = (i.fatalError? address).map (Error.shift · offset) := by
  cases i <;> rfl

section Shift

variable {γ : Type} [WordSource γ]

/-- An instruction that goes on does not see its address. -/
theorem step_address {i : Instruction} (goesOn : i.isFatal = false) (setting : Setting)
    (a b : Nat) (p : Pass γ) : i.step setting a p = i.step setting b p := by
  cases i <;> first | rfl | cases goesOn

/-- Any other instruction names it in its error. -/
theorem step_shift (i : Instruction) (setting : Setting) (address offset : Nat) (p : Pass γ) :
    i.step setting (address + offset) p =
      (i.step setting address p).mapError (Failure.shift · offset) := by
  cases h : i.step setting address p with
  | ok p' =>
    obtain ⟨goesOn, -, -⟩ := step_eq_ok_iff.mp h
    rw [step_address goesOn setting _ address, h]
    rfl
  | error failure =>
    cases failure with
    | error e =>
      refine step_eq_error_iff.mpr ?_
      rw [fatalError?_add, step_eq_error_iff.mp h]
      rfl
    | breach b =>
      have goesOn : i.isFatal = false := by
        cases i <;> first | rfl | cases h
      rw [step_address goesOn setting _ address, h]
      rfl

/-- The address of a run shows in nothing but its error. -/
theorem run_shift (setting : Setting) (address offset : Nat) (l : List Instruction)
    (p : Pass γ) :
    run setting (address + offset) l p =
      ⟨(run setting address l p).failure.map (Failure.shift · offset),
        (run setting address l p).pass⟩ := by
  fun_induction run setting address l p with
  | case1 => rfl
  | case2 => rfl
  | case3 address i l p hi p' h ih =>
    rw [run_cons hi, step_shift, h, Nat.add_right_comm]
    exact ih
  | case4 address i l p hi failure h =>
    rw [run_cons hi, step_shift, h]
    rfl

/-- **A run that breaks no bound by itself does the same in its place.** -/
theorem run_atop_shift {setting : Setting} {l : List Instruction} {p : Pass γ}
    (safe : ∀ b, (run setting 0 l p).failure ≠ some (.breach b)) (base : List Float)
    (extra : Nat) (rest : List Float) (address : Nat) :
    run setting address l (p.atop base extra rest) =
      ⟨(run setting 0 l p).failure.map (Failure.shift · address),
        (run setting 0 l p).pass.atop base extra rest⟩ := by
  have shifted := run_shift setting 0 address l (p.atop base extra rest)
  rw [Nat.zero_add, run_atop safe] at shifted
  exact shifted

end Shift

/-! ## The check -/

namespace Budget

/-- Counts on top of other values, with more constants behind and a depth reached before. -/
def atop (b : Budget) (base extra deepest : Nat) : Budget where
  depth := b.depth + base
  unread := b.unread + extra
  deepest := max deepest (b.deepest + base)

theorem after_atop {b : Budget} {i : Instruction} (pool : i.poolUse ≤ b.unread)
    (stack : i.pops ≤ b.depth) (base extra deepest : Nat) :
    (b.atop base extra deepest).after i = (b.after i).atop base extra deepest := by
  have depth : b.depth + base - i.pops + i.pushes = b.depth - i.pops + i.pushes + base := by
    omega
  simp only [after, atop, depth, mk.injEq, true_and]
  omega

/-- **The check counts the same from a higher start,** as long as the depth stays within its
bound. -/
theorem spendAll_atop {start : Nat} {l : List Instruction} {b b' : Budget}
    (spent : spendAll start l b = .ok b') {base : Nat} (limit : b'.deepest + base < depthLimit)
    (extra deepest address : Nat) :
    spendAll address l (b.atop base extra deepest) = .ok (b'.atop base extra deepest) := by
  induction l generalizing b start address with
  | nil =>
    cases spent
    rfl
  | cons i rest ih =>
    rw [spendAll] at spent
    split at spent
    · rename_i next step
      obtain ⟨pool, stack, -, rfl⟩ := spend_eq_ok_iff.mp step
      have deeper : (b.after i).depth ≤ b'.deepest :=
        (Nat.le_max_right ..).trans (deepest_le_of_spendAll spent)
      have again : (b.atop base extra deepest).spend address i =
          .ok ((b.after i).atop base extra deepest) := by
        rw [← after_atop pool stack]
        refine spend_eq_ok_iff.mpr ⟨?_, ?_, ?_, rfl⟩
        · exact Nat.le_add_right_of_le pool
        · exact Nat.le_add_right_of_le stack
        · rw [after_atop pool stack]
          simp only [atop]
          omega
      rw [spendAll, again]
      exact ih spent (address + 1)
    · cases spent

end Budget

end CabScript
