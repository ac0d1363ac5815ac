import CabScript.Machine.Step

/-!
# The effect of a step

All steps have one shape: an instruction takes values from the top of the stack and constants from
the front of the pool, and leaves other values in their place. How many of each is said by
`Instruction.pops`, `Instruction.poolUse` and `Instruction.pushes`. The theorems of this module say
that the machine keeps to these numbers, so that later proofs need not look at single instructions.

## Main definitions

* `Instruction.yield`: the values that an instruction leaves.
* `Pass.Affords`: a pass holds what an instruction needs.
* `Pass.advance`: the pass after the instruction.

## Main statements

* `step_eq_ok_iff`: a step can be taken exactly by an instruction of the set that finds what it
  needs, and then leads to `Pass.advance`.
* `step_eq_error_iff`: which instructions stop a script, and with which error.
-/

namespace CabScript

namespace Instruction

/-- The error of a pass that reaches the instruction at an address; none if the pass goes on. -/
def fatalError? (address : Nat) : Instruction → Option Error
  | panelTimetable => some ⟨.reservedInstruction, some address, "panel2timetable"⟩
  | unknown _ => some ⟨.unknownInstruction, some address, ""⟩
  | _ => none

/-- Whether a pass that reaches the instruction ends with an error. -/
def isFatal : Instruction → Bool
  | panelTimetable | unknown _ => true
  | _ => false

variable {γ : Type} [WordSource γ]

/-- What an instruction leaves in place of the values it takes, both listed from the top, and the
source after it. -/
def yield (setting : Setting) : Instruction → List Float → List Float → γ → List Float × γ
  | constant, _, taken, source => (taken.reverse, source)
  | constants _, _, taken, source => (taken.reverse, source)
  | previous, _, _, source => ([setting.previous], source)
  | copy, [a], _, source => ([a, a], source)
  | swap, [b, a], _, source => ([a, b], source)
  | unary op, [a], _, source => ([op.apply a], source)
  | binary op, [b, a], _, source => ([op.apply a b], source)
  | ternary op, [c, b, a], _, source => ([op.apply a b c], source)
  | draw d, [b, a], _, source => ([(d.apply a b source).1], (d.apply a b source).2)
  | query q, _, _, source => ([q.read setting.viewpoint], source)
  | queryAt q, [a], _, source => ([q.read setting.viewpoint a], source)
  | _, _, _, source => ([], source)

end Instruction

open Instruction

variable {γ : Type} [WordSource γ]

namespace Pass

/-- What an instruction leaves in place of the values it takes in a pass. -/
def yield (p : Pass γ) (setting : Setting) (i : Instruction) : List Float × γ :=
  i.yield setting (p.stack.values.take i.pops) (p.unread.take i.poolUse) p.source

/-- The pass after an instruction. -/
def advance (p : Pass γ) (setting : Setting) (i : Instruction) : Pass γ where
  stack := p.stack.replaceTop i.pops (p.yield setting i).1
  unread := p.unread.drop i.poolUse
  source := (p.yield setting i).2

/-- The pass holds what an instruction needs. -/
structure Affords (p : Pass γ) (i : Instruction) : Prop where
  values : i.pops ≤ p.stack.values.length
  constants : i.poolUse ≤ p.unread.length
  room : i.pushes ≤ p.stack.room + i.pops

end Pass

/-! ## What an instruction leaves -/

/-- An instruction that goes on leaves as many values as the table of effects says. -/
theorem length_yield {setting : Setting} {i : Instruction} (goesOn : i.isFatal = false)
    {popped taken : List Float}
    (hpopped : popped.length = i.pops) (htaken : taken.length = i.poolUse) (source : γ) :
    (i.yield setting popped taken source).1.length = i.pushes := by
  cases i with
  | halt | previous | query => rfl
  | constant | constants => simpa [Instruction.yield, pushes, poolUse] using htaken
  | copy | unary | queryAt =>
    match popped, hpopped with
    | [_], _ => rfl
  | swap | binary | draw =>
    match popped, hpopped with
    | [_, _], _ => rfl
  | ternary =>
    match popped, hpopped with
    | [_, _, _], _ => rfl
  | panelTimetable | unknown => cases goesOn

namespace Pass

/-- The same for an instruction in a pass that holds what it needs. -/
theorem Affords.length_yield {p : Pass γ} {i : Instruction} (h : p.Affords i)
    (goesOn : i.isFatal = false) (setting : Setting) :
    (p.yield setting i).1.length = i.pushes :=
  CabScript.length_yield goesOn (List.length_take_of_le h.values)
    (List.length_take_of_le h.constants) p.source

/-- A step keeps the capacity of the stack. -/
theorem Affords.capacity_advance {p : Pass γ} {i : Instruction} (h : p.Affords i)
    (goesOn : i.isFatal = false) (setting : Setting) :
    (p.advance setting i).stack.capacity = p.stack.capacity := by
  refine Stack.capacity_replaceTop h.values ?_
  rw [h.length_yield goesOn]
  exact h.room

/-- A step changes the number of values on the stack as the table of effects says. -/
theorem Affords.length_values_advance {p : Pass γ} {i : Instruction} (h : p.Affords i)
    (goesOn : i.isFatal = false) (setting : Setting) :
    (p.advance setting i).stack.values.length = p.stack.values.length - i.pops + i.pushes := by
  simp only [advance, Stack.replaceTop, List.length_append, List.length_drop]
  rw [h.length_yield goesOn, Nat.add_comm]

end Pass

/-! ## The steps that can be taken -/

/-- The pass after an instruction, written out. -/
theorem advance_mk (values : List Float) (room : Nat) (unread : List Float) (source : γ)
    (setting : Setting) (i : Instruction) :
    (Pass.mk ⟨values, room⟩ unread source).advance setting i =
      let left := i.yield setting (values.take i.pops) (unread.take i.poolUse) source
      ⟨⟨left.1 ++ values.drop i.pops, room + i.pops - left.1.length⟩, unread.drop i.poolUse,
        left.2⟩ := rfl

section Operations

omit [WordSource γ]

/-- A pass as it is written out affords what its parts afford. -/
theorem affords_mk {values : List Float} {room : Nat} {unread : List Float} {source : γ}
    {i : Instruction} :
    (Pass.mk ⟨values, room⟩ unread source).Affords i ↔
      i.pops ≤ values.length ∧ i.poolUse ≤ unread.length ∧ i.pushes ≤ room + i.pops :=
  ⟨fun h => ⟨h.values, h.constants, h.room⟩, fun h => ⟨h.1, h.2.1, h.2.2⟩⟩

/-- No operation on the stack stops a script with an error of its own. -/
theorem Pass.withStack_ne_error (p : Pass γ) (result : Except Breach Stack) (e : Error) :
    p.withStack result ≠ .error (.error e) := by
  cases result <;> simp [withStack]

/-- Constants that the pool holds can be taken. -/
theorem Pass.takeConstants_of_le {p : Pass γ} {count : Nat} (held : count ≤ p.unread.length) :
    p.takeConstants count =
      .ok (p.unread.take count, { p with unread := p.unread.drop count }) := by
  exact if_pos (List.length_take_of_le held)

/-- Constants beyond the end of the pool cannot. -/
theorem Pass.takeConstants_of_lt {p : Pass γ} {count : Nat} (short : p.unread.length < count) :
    p.takeConstants count = .error (.breach .poolExhausted) := by
  have taken : (p.unread.take count).length ≠ count := by
    rw [List.length_take]
    omega
  exact if_neg taken

/-- Constants can be pushed if the pool holds them and the stack has room for them. -/
theorem Pass.pushConstants_eq_ok_iff {p p' : Pass γ} {count : Nat} :
    p.pushConstants count = .ok p' ↔ count ≤ p.unread.length ∧ count ≤ p.stack.room ∧
      p' = ⟨⟨(p.unread.take count).reverse ++ p.stack.values, p.stack.room - count⟩,
        p.unread.drop count, p.source⟩ := by
  rcases Nat.lt_or_ge p.unread.length count with short | held
  · simp [pushConstants, takeConstants_of_lt short, Nat.not_le.mpr short]
  · by_cases room : count ≤ p.stack.room <;>
      simp [pushConstants, takeConstants_of_le held, withStack, Stack.extend, held, room, eq_comm]

/-- Nor does pushing constants stop a script with an error of its own. -/
theorem Pass.pushConstants_ne_error (p : Pass γ) (count : Nat) (e : Error) :
    p.pushConstants count ≠ .error (.error e) := by
  rcases Nat.lt_or_ge p.unread.length count with short | held
  · simp [pushConstants, takeConstants_of_lt short]
  · simp [pushConstants, takeConstants_of_le held, withStack_ne_error]

end Operations

/-- Nor does a draw. -/
theorem Pass.draw_ne_error (p : Pass γ) (d : Draw) (e : Error) :
    p.draw d ≠ .error (.error e) := by
  unfold draw
  split <;> simp

/-- **What a step does.** A step can be taken by exactly the instructions that go on and find what
they need. It replaces the values that the instruction takes, moves past its constants and leaves
everything else as it is. -/
theorem step_eq_ok_iff {setting : Setting} {address : Nat} {p p' : Pass γ} {i : Instruction} :
    i.step setting address p = .ok p' ↔
      i.isFatal = false ∧ p.Affords i ∧ p' = p.advance setting i := by
  obtain ⟨⟨values, room⟩, unread, source⟩ := p
  rw [affords_mk, advance_mk]
  -- the values are taken apart as far as the instruction looks at them
  cases i with
  | halt => simp [step, isFatal, pops, pushes, poolUse, Instruction.yield, eq_comm]
  | constant | constants =>
    simp only [step, Pass.pushConstants_eq_ok_iff, isFatal, pops, pushes, poolUse,
      Instruction.yield, true_and, and_assoc, Nat.zero_le, Nat.add_zero, List.drop_zero]
    refine and_congr_right fun held => ?_
    rw [List.length_reverse, List.length_take_of_le held]
  | previous | query =>
    cases room <;>
      simp [step, isFatal, pops, pushes, poolUse, Instruction.yield, Stack.push,
        Pass.withStack, eq_comm]
  | copy =>
    rcases values with _ | ⟨a, values⟩ <;> cases room <;>
      simp [step, isFatal, pops, pushes, poolUse, Instruction.yield, Stack.copy, Stack.push,
        Pass.withStack, eq_comm]
  | swap =>
    rcases values with _ | ⟨b, _ | ⟨a, values⟩⟩ <;>
      simp [step, isFatal, pops, pushes, poolUse, Instruction.yield, Stack.swap,
        Pass.withStack, eq_comm]
  | unary | queryAt =>
    rcases values with _ | ⟨a, values⟩ <;>
      simp [step, isFatal, pops, pushes, poolUse, Instruction.yield, Stack.unary,
        Pass.withStack, eq_comm]
  | binary =>
    rcases values with _ | ⟨b, _ | ⟨a, values⟩⟩ <;>
      simp [step, isFatal, pops, pushes, poolUse, Instruction.yield, Stack.binary,
        Pass.withStack, eq_comm]
  | draw =>
    rcases values with _ | ⟨b, _ | ⟨a, values⟩⟩ <;>
      simp [step, isFatal, pops, pushes, poolUse, Instruction.yield, Stack.binaryWith,
        Pass.draw, eq_comm]
  | ternary =>
    rcases values with _ | ⟨c, _ | ⟨b, _ | ⟨a, values⟩⟩⟩ <;>
      simp [step, isFatal, pops, pushes, poolUse, Instruction.yield, Stack.ternary,
        Pass.withStack, eq_comm]
  | panelTimetable | unknown => simp [step, isFatal]

/-- The errors with which steps stop a script: those of the fatal instructions, whatever the pass
holds. -/
theorem step_eq_error_iff {setting : Setting} {address : Nat} {p : Pass γ} {i : Instruction}
    {e : Error} :
    i.step setting address p = .error (.error e) ↔ i.fatalError? address = some e := by
  cases i with
  | halt => simp [step, fatalError?]
  | constant | constants => simp [step, fatalError?, Pass.pushConstants_ne_error]
  | draw => simp [step, fatalError?, Pass.draw_ne_error]
  | panelTimetable | unknown => simp [step, fatalError?]
  | _ => simp [step, fatalError?, Pass.withStack_ne_error]

/-- A step that finds what it needs can be taken. -/
theorem step_of_affords {setting : Setting} {address : Nat} {p : Pass γ} {i : Instruction}
    (goesOn : i.isFatal = false) (h : p.Affords i) :
    i.step setting address p = .ok (p.advance setting i) :=
  step_eq_ok_iff.mpr ⟨goesOn, h, rfl⟩

/-- Every step keeps the capacity of the stack. -/
theorem capacity_of_step {setting : Setting} {address : Nat} {p p' : Pass γ} {i : Instruction}
    (h : i.step setting address p = .ok p') : p'.stack.capacity = p.stack.capacity := by
  obtain ⟨goesOn, affords, rfl⟩ := step_eq_ok_iff.mp h
  exact affords.capacity_advance goesOn setting

end CabScript
