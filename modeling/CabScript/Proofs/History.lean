import CabScript.Proofs.Outcome
import CabScript.Script.Reversal

/-!
# Histories of a script

A host keeps a script for as long as it shows the element: it evaluates the script once per frame,
sets its last result, and shifts its car numbers, in any order. The check on the way in is the only
one, so it has to hold for all that follows.

## Main definitions

* `Call`: what a host can ask of a script.
* `Script.afterCalls`, `Script.evaluations`: what a history of calls leaves and yields.
* `Script.MadeFrom`: the ways in which a script is made.

## Main statements

* `Script.alike_afterCalls`: what no history changes.
* `history_sound`: no evaluation in any history breaks a bound.
-/

namespace CabScript

/-- What a host can ask of a script. -/
inductive Call (γ : Type) where
  /-- An evaluation for what an element sees, which draws from a source. -/
  | evaluate (v : Viewpoint) (source : γ)
  | setLastResult (x : Float)
  /-- A shift, which may stop on its way. -/
  | shiftCarIndices (offset : Float)

namespace Script

variable {γ : Type} [WordSource γ]

/-- The script after a call. -/
def perform (s : Script) : Call γ → Script
  | .evaluate v source => (s.evaluate v source).script
  | .setLastResult x => s.withLastResult x
  | .shiftCarIndices offset => s.shiftCarIndices offset

/-- What a call yields if it is an evaluation. -/
def evaluation? (s : Script) : Call γ → Option (Evaluation γ)
  | .evaluate v source => some (s.evaluate v source)
  | _ => none

/-- The script after calls in their order. -/
def afterCalls (s : Script) (calls : List (Call γ)) : Script :=
  calls.foldl perform s

/-- What the evaluations among the calls yield, in their order. -/
def evaluations (s : Script) : List (Call γ) → List (Evaluation γ)
  | [] => []
  | call :: rest => (s.evaluation? call).toList ++ (s.perform call).evaluations rest

/-! ## What no call changes -/

/-- Two scripts agree in the instructions, the size of the pool and the capacity. -/
structure Alike (s t : Script) : Prop where
  code : t.code = s.code
  poolSize : t.constants.length = s.constants.length
  capacity : t.stack.capacity = s.stack.capacity

theorem Alike.refl (s : Script) : s.Alike s := ⟨rfl, rfl, rfl⟩

theorem Alike.trans {s t u : Script} (h : s.Alike t) (h' : t.Alike u) : s.Alike u :=
  ⟨h'.code.trans h.code, h'.poolSize.trans h.poolSize, h'.capacity.trans h.capacity⟩

/-- A call leaves a script alike. Evaluations write to the stack, but within its capacity. -/
theorem alike_perform (s : Script) (call : Call γ) : s.Alike (s.perform call) := by
  cases call with
  | evaluate v source =>
    refine ⟨s.code_evaluate v source, by rw [perform, constants_evaluate], ?_⟩
    rw [perform, stack_evaluate]
    exact s.capacity_runFor v source
  | setLastResult x => exact ⟨rfl, rfl, rfl⟩
  | shiftCarIndices offset => exact ⟨rfl, length_constants_shiftCarIndicesBy .., rfl⟩

theorem alike_afterCalls (s : Script) (calls : List (Call γ)) : s.Alike (s.afterCalls calls) := by
  induction calls generalizing s with
  | nil => exact .refl s
  | cons call rest ih => exact (s.alike_perform call).trans (ih (s.perform call))

/-- Each evaluation of a history is that of a script that is alike. -/
theorem exists_of_mem_evaluations {s : Script} {calls : List (Call γ)} {e : Evaluation γ}
    (h : e ∈ s.evaluations calls) : ∃ t v source, s.Alike t ∧ e = t.evaluate v source := by
  induction calls generalizing s with
  | nil => cases h
  | cons call rest ih =>
    rcases List.mem_append.mp h with now | later
    · cases call with
      | evaluate v source => exact ⟨s, v, source, .refl s, List.mem_singleton.mp now⟩
      | setLastResult | shiftCarIndices => cases now
    · obtain ⟨t, v, source, alike, rfl⟩ := ih later
      exact ⟨t, v, source, (s.alike_perform call).trans alike, rfl⟩

/-! ## How evaluations end -/

/-- The error of a fatal instruction has one of two causes. -/
theorem fault_of_fatalError {i : Instruction} {address : Nat} {e : Error}
    (h : i.fatalError? address = some e) :
    e.fault = .unknownInstruction ∨ e.fault = .reservedInstruction := by
  cases i with
  | panelTimetable =>
    cases h
    exact .inr rfl
  | unknown code =>
    cases h
    exact .inl rfl
  | _ => cases h

/-- An evaluation has a result, or the error of a fatal instruction. -/
theorem outcome_evaluate_cases (s : Script) (v : Viewpoint) (source : γ) :
    (∃ x, (s.evaluate v source).outcome = .ok x) ∨
      ∃ i address e, Instruction.fatalError? address i = some e ∧
        (s.evaluate v source).outcome = .error (.error e) := by
  by_cases fatal : ∃ i ∈ live s.code, i.isFatal = true
  · obtain ⟨before, i, after, split, goesOn, fatal⟩ := exists_first_fatal fatal
    obtain ⟨e, he⟩ := exists_fatalError fatal before.length
    exact .inr ⟨i, _, e, he, (s.evaluate_of_fatal v source split goesOn he).1⟩
  · have goesOn : ∀ i ∈ live s.code, i.isFatal = false := by simpa using fatal
    obtain ⟨x, outcome, -⟩ := s.evaluate_of_goesOn v source goesOn
    exact .inl ⟨x, outcome⟩

/-! ## Making a script -/

/-- The ways in which a script is made from instructions and constants. -/
inductive MadeFrom (s : Script) (code : List Instruction) (constants : List Float) : Prop where
  | ofCode (made : ofCode code constants = .ok s)
  | ofCodeWithCapacity (capacity : Nat) (made : ofCodeWithCapacity code constants capacity = .ok s)
  | ofStream (stream : List UInt16) (decoded : Instruction.decode stream = some code)
    (made : ofStream stream constants = .ok s)

/-- However it is made, a script holds what it was made from, and an empty stack. -/
theorem MadeFrom.new {code : List Instruction} {constants : List Float} {s : Script}
    (h : s.MadeFrom code constants) : ∃ capacity, s.New code constants ⟨[], capacity⟩ := by
  cases h with
  | ofCode made =>
    obtain ⟨depth, -, new⟩ := new_of_ofCode made
    exact ⟨depth, new⟩
  | ofCodeWithCapacity capacity made => exact ⟨capacity, new_of_ofCodeWithCapacity made⟩
  | ofStream stream decoded made =>
    rw [ofStream_of_decode decoded] at made
    obtain ⟨depth, -, new⟩ := new_of_ofCode made
    exact ⟨depth, new⟩

end Script

/-- **Admission is sound for whole histories.** Whatever calls are made on a script, in whatever
order, no evaluation takes a value or a constant that is not there or pushes one for which there is
no room; each has a result or stops at a fatal instruction. The instructions, the size of the pool
and the capacity stay as they were made. -/
theorem history_sound {γ : Type} [WordSource γ] {code : List Instruction} {constants : List Float}
    {s : Script} (made : s.MadeFrom code constants) (calls : List (Call γ)) :
    (∀ e ∈ s.evaluations calls,
      (∀ b, e.outcome ≠ .error (.breach b)) ∧
      ((∃ x, e.outcome = .ok x) ∨
        ∃ error, e.outcome = .error (.error error) ∧
          (error.fault = .unknownInstruction ∨ error.fault = .reservedInstruction))) ∧
    (s.afterCalls calls).code = code ∧
    (s.afterCalls calls).constants.length = constants.length ∧
    (s.afterCalls calls).stack.capacity = s.stack.capacity := by
  refine ⟨fun e he => ?_, ?_⟩
  · obtain ⟨t, v, source, -, rfl⟩ := Script.exists_of_mem_evaluations he
    rcases t.outcome_evaluate_cases v source with ⟨x, outcome⟩ | ⟨i, address, error, h, outcome⟩
    · rw [outcome]
      exact ⟨by simp, .inl ⟨x, rfl⟩⟩
    · rw [outcome]
      exact ⟨by simp, .inr ⟨error, rfl, Script.fault_of_fatalError h⟩⟩
  · obtain ⟨capacity, new⟩ := made.new
    have alike := s.alike_afterCalls calls
    refine ⟨alike.code.trans new.code, alike.poolSize.trans ?_, alike.capacity⟩
    rw [new.constants]

/-- The speed of the last car, in a train that is turned around between two frames. -/
theorem history_sound_last_car : ∃ s : Script,
    s.MadeFrom [.constant, .queryAt (.car (.reading .speed))] [-1.0] ∧
      ∀ e ∈ s.evaluations (γ := Stepper) [.evaluate (.ofWorld {}) ⟨0, 1⟩, .shiftCarIndices 1.0,
        .evaluate (.ofWorld {}) ⟨0, 1⟩], ∀ b, e.outcome ≠ .error (.breach b) := by
  have made : Script.MadeFrom ⟨_, _, ⟨[], 1⟩, 0.0, 1, Nat.le_refl 1, rfl⟩
      [.constant, .queryAt (.car (.reading .speed))] [-1.0] := .ofCode rfl
  exact ⟨_, made, fun e he => ((history_sound made _).1 e he).1⟩

end CabScript
