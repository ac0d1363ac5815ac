import CabScript.Proofs.Admission
import CabScript.Script.Evaluation

/-!
# How evaluations end

An admitted script never breaks a bound of the machine. The counts of the admission check are the
sizes that the machine meets at every address (`Pass.Matches`), so each instruction finds what it
needs, and all that can stop a run is an instruction that no script may use. Whether there is one
can be seen from the instructions alone, and so can the address, the cause and the number of values
that are left behind.

## Main statements

* `run_of_spendAll`: instructions that the check passes run to the end.
* `evaluate_outcome`: how an evaluation ends.
-/

namespace CabScript

open Instruction

variable {γ : Type} [WordSource γ]

/-! ## Runs over lists in parts -/

/-- An instruction other than `halt` takes its step. -/
theorem run_cons {i : Instruction} (h : i ≠ halt) (setting : Setting) (address : Nat)
    (rest : List Instruction) (p : Pass γ) :
    run setting address (i :: rest) p =
      match i.step setting address p with
      | .ok p => run setting (address + 1) rest p
      | .error failure => ⟨some failure, p⟩ :=
  run.eq_3 setting address p i rest h

/-- Only the part before the first `halt` runs. -/
theorem run_live (setting : Setting) (address : Nat) (code : List Instruction) (p : Pass γ) :
    run setting address (live code) p = run setting address code p := by
  fun_induction run setting address code p with
  | case1 => rfl
  | case2 => simp [run]
  | case3 address i rest p hi p' h ih =>
    rw [live_cons hi, run_cons hi, h]
    exact ih
  | case4 address i rest p hi failure h =>
    rw [live_cons hi, run_cons hi, h]

/-- A run over two lists goes on with the second where the first one ends. -/
theorem run_append {l : List Instruction} (noHalt : halt ∉ l) (setting : Setting) (address : Nat)
    (m : List Instruction) (p : Pass γ) :
    run setting address (l ++ m) p =
      match (run setting address l p).failure with
      | none => run setting (address + l.length) m (run setting address l p).pass
      | some _ => run setting address l p := by
  induction l generalizing address p with
  | nil => rfl
  | cons i rest ih =>
    obtain ⟨hi, hrest⟩ : halt ≠ i ∧ halt ∉ rest := by simpa using noHalt
    rw [List.cons_append, run_cons (Ne.symm hi), run_cons (Ne.symm hi)]
    cases i.step setting address p with
    | error failure => rfl
    | ok p' =>
      simp only
      rw [ih hrest, List.length_cons, Nat.add_right_comm, Nat.add_assoc]

/-! ## The counts of the check are the sizes that a run meets -/

/-- The counts of the check at some address are the sizes of the pass there. -/
structure Pass.Matches (p : Pass γ) (b : Budget) : Prop where
  depth : p.stack.values.length = b.depth
  unread : p.unread.length = b.unread

omit [WordSource γ] in
/-- What the check grants, the pass affords. -/
theorem Pass.Matches.affords {p : Pass γ} {b b' : Budget} {address : Nat} {i : Instruction}
    (h : p.Matches b) (spent : b.spend address i = .ok b')
    (fits : b'.deepest ≤ p.stack.capacity) : p.Affords i := by
  obtain ⟨pool, stack, -, rfl⟩ := Budget.spend_eq_ok_iff.mp spent
  have depth := h.depth
  refine ⟨depth ▸ stack, h.unread ▸ pool, ?_⟩
  simp only [Budget.after, Stack.capacity] at fits
  omega

/-- A step keeps the counts and the sizes together. -/
theorem Pass.Matches.advance {p : Pass γ} {b : Budget} {i : Instruction} (h : p.Matches b)
    (affords : p.Affords i) (goesOn : i.isFatal = false) (setting : Setting) :
    (p.advance setting i).Matches (b.after i) where
  depth := by
    rw [affords.length_values_advance goesOn setting, h.depth]
    rfl
  unread := by
    rw [Pass.advance, List.length_drop, h.unread]
    rfl

/-- The greatest depth only grows. -/
theorem Budget.deepest_le_of_spendAll {address : Nat} {l : List Instruction} {b b' : Budget}
    (spent : spendAll address l b = .ok b') : b.deepest ≤ b'.deepest := by
  induction l generalizing address b with
  | nil =>
    cases spent
    exact Nat.le_refl _
  | cons i rest ih =>
    rw [spendAll] at spent
    split at spent
    · rename_i next step
      obtain ⟨-, -, -, rfl⟩ := spend_eq_ok_iff.mp step
      exact (Nat.le_max_left ..).trans (ih spent)
    · cases spent

/-- **Instructions that the check passes run to the end,** as long as none of them is fatal and the
stack is as deep as the check found necessary. -/
theorem run_of_spendAll {l : List Instruction} {b b' : Budget} {p : Pass γ} {start : Nat}
    (spent : Budget.spendAll start l b = .ok b') (noHalt : halt ∉ l)
    (goesOn : ∀ i ∈ l, i.isFatal = false) (h : p.Matches b)
    (fits : b'.deepest ≤ p.stack.capacity) (setting : Setting) (address : Nat) :
    ∃ p', run setting address l p = ⟨none, p'⟩ ∧ p'.Matches b' := by
  induction l generalizing b p start address with
  | nil =>
    cases spent
    exact ⟨p, rfl, h⟩
  | cons i rest ih =>
    obtain ⟨hi, hrest⟩ : halt ≠ i ∧ halt ∉ rest := by simpa using noHalt
    obtain ⟨goesOn, restGoesOn⟩ := List.forall_mem_cons.mp goesOn
    rw [Budget.spendAll] at spent
    split at spent
    · rename_i next step
      have affords := h.affords step ((Budget.deepest_le_of_spendAll spent).trans fits)
      obtain ⟨-, -, -, rfl⟩ := Budget.spend_eq_ok_iff.mp step
      rw [run_cons (Ne.symm hi), step_of_affords goesOn affords]
      refine ih spent hrest restGoesOn (h.advance affords goesOn setting) ?_ (address + 1)
      rwa [affords.capacity_advance goesOn]
    · cases spent

/-! ## Evaluations of admitted scripts -/

namespace Script

variable (s : Script) (v : Viewpoint) (source : γ)

/-- The walk over an admitted script gets to the end within the capacity, and finds a single value
there. -/
theorem exists_spendAll : ∃ b, Budget.spendAll 0 (live s.code) ⟨0, s.constants.length, 0⟩ = .ok b ∧
    b.depth = 1 ∧ b.deepest ≤ s.stack.capacity := by
  obtain ⟨depth, fits, required⟩ := s.admitted
  obtain ⟨b, spent, single, rfl⟩ := requiredDepth_eq_ok_iff.mp required
  exact ⟨b, spent, single, fits⟩

omit [WordSource γ] in
theorem start_matches : (s.start source).Matches ⟨0, s.constants.length, 0⟩ := ⟨rfl, rfl⟩

omit [WordSource γ] in
theorem capacity_start : (s.start source).stack.capacity = s.stack.capacity :=
  s.stack.capacity_clear

/-- Without a fatal instruction the run ends with a single value. -/
theorem runFor_of_goesOn (goesOn : ∀ i ∈ live s.code, i.isFatal = false) :
    ∃ p x, s.runFor v source = ⟨none, p⟩ ∧ p.stack.values = [x] := by
  obtain ⟨b, spent, single, fits⟩ := s.exists_spendAll
  rw [← s.capacity_start source] at fits
  obtain ⟨p, ran, sizes⟩ := run_of_spendAll spent (halt_notMem_live _) goesOn
    (s.start_matches source) fits ⟨v, s.lastResult⟩ 0
  obtain ⟨x, hx⟩ := List.length_eq_one_iff.mp (sizes.depth.trans single)
  refine ⟨p, x, ?_, hx⟩
  rw [runFor, ← run_live, ran]

/-- At the first fatal instruction the run ends with its error. The values on the stack are those
that the instructions before it have left. -/
theorem runFor_of_fatal {before after : List Instruction} {i : Instruction} {e : Error}
    (split : live s.code = before ++ i :: after) (goesOn : ∀ j ∈ before, j.isFatal = false)
    (fatal : i.fatalError? before.length = some e) :
    ∃ p, s.runFor v source = ⟨some (.error e), p⟩ ∧
      (p.stack.values.length : Int) = height before := by
  obtain ⟨b, spent, -, fits⟩ := s.exists_spendAll
  rw [← s.capacity_start source] at fits
  have noHalt := halt_notMem_live s.code
  rw [split] at spent noHalt
  obtain ⟨hbefore, hi, -⟩ : halt ∉ before ∧ halt ≠ i ∧ halt ∉ after := by simpa using noHalt
  -- the check has passed the part before the instruction, and counted no deeper there
  obtain ⟨mid, spentMid, spentRest⟩ := Budget.exists_spendAll_of_append spent
  have midFits := (Budget.deepest_le_of_spendAll spentRest).trans fits
  obtain ⟨p, ran, sizes⟩ := run_of_spendAll spentMid hbefore goesOn (s.start_matches source)
    midFits ⟨v, s.lastResult⟩ 0
  refine ⟨p, ?_, ?_⟩
  · rw [runFor, ← run_live, split, run_append hbefore, ran]
    simp only [Nat.zero_add]
    rw [run_cons (Ne.symm hi), step_eq_error_iff.mpr fatal]
  · have tallies := (Tallies.start s.constants.length).spendAll spentMid
    rw [sizes.depth, tallies.depth]
    rfl

/-- Without a fatal instruction an evaluation has a result, and leaves nothing else. -/
theorem evaluate_of_goesOn (goesOn : ∀ i ∈ live s.code, i.isFatal = false) :
    ∃ x, (s.evaluate v source).outcome = .ok x ∧
      (s.evaluate v source).script.stack.values = [x] ∧
      (s.evaluate v source).script.lastResult = x := by
  obtain ⟨p, x, ran, values⟩ := s.runFor_of_goesOn v source goesOn
  have outcome : (s.evaluate v source).outcome = .ok x := by
    rw [outcome_evaluate, ran]
    simp [Ending.result, Stack.top, values]
  refine ⟨x, outcome, ?_, ?_⟩
  · rw [stack_evaluate, ran, values]
  · rw [lastResult_evaluate, outcome]
    rfl

/-- The first fatal instruction is the error of an evaluation. -/
theorem evaluate_of_fatal {before after : List Instruction} {i : Instruction} {e : Error}
    (split : live s.code = before ++ i :: after) (goesOn : ∀ j ∈ before, j.isFatal = false)
    (fatal : i.fatalError? before.length = some e) :
    (s.evaluate v source).outcome = .error (.error e) ∧
      ((s.evaluate v source).script.stack.values.length : Int) = height before := by
  obtain ⟨p, ran, depth⟩ := s.runFor_of_fatal v source split goesOn fatal
  constructor
  · rw [outcome_evaluate, ran]
    rfl
  · rw [stack_evaluate, ran, depth]

end Script

/-- Where there are fatal instructions, there is a first one. -/
theorem exists_first_fatal {code : List Instruction} (h : ∃ i ∈ code, i.isFatal = true) :
    ∃ before i after, code = before ++ i :: after ∧ (∀ j ∈ before, j.isFatal = false) ∧
      i.isFatal = true :=
  exists_first h

/-- A fatal instruction has an error at every address. -/
theorem exists_fatalError {i : Instruction} (fatal : i.isFatal = true) (address : Nat) :
    ∃ e, i.fatalError? address = some e := by
  cases i <;> simp_all [isFatal, fatalError?]

/-- **How an evaluation ends is decided by the instructions alone,** whatever the element sees,
whatever is drawn and whatever the last result was.

* It fails if and only if a fatal instruction stands before the first `halt`.
* The error has the cause and the address of the first such instruction, and the stack is as high
  as the effects of the instructions before it add up to.
* Otherwise there is a result, which is the only value on the stack and the new last result. -/
theorem evaluate_outcome (s : Script) (v : Viewpoint) (source : γ) :
    ((∃ failure, (s.evaluate v source).outcome = .error failure) ↔
      ∃ i ∈ live s.code, i.isFatal = true) ∧
    (∀ before i after, live s.code = before ++ i :: after →
      (∀ j ∈ before, j.isFatal = false) → i.isFatal = true →
        (∀ code, i = .unknown code → (s.evaluate v source).outcome =
          .error (.error ⟨.unknownInstruction, some before.length, ""⟩)) ∧
        (i = .panelTimetable → (s.evaluate v source).outcome =
          .error (.error ⟨.reservedInstruction, some before.length, "panel2timetable"⟩)) ∧
        ((s.evaluate v source).script.stack.values.length : Int) = height before) ∧
    ((∀ i ∈ live s.code, i.isFatal = false) →
      ∃ x, (s.evaluate v source).outcome = .ok x ∧
        (s.evaluate v source).script.stack.values = [x] ∧
        (s.evaluate v source).script.lastResult = x) := by
  refine ⟨⟨?_, ?_⟩, ?_, s.evaluate_of_goesOn v source⟩
  · rintro ⟨failure, failed⟩
    by_contra none
    have goesOn : ∀ i ∈ live s.code, i.isFatal = false := by simpa using none
    obtain ⟨x, outcome, -⟩ := s.evaluate_of_goesOn v source goesOn
    rw [outcome] at failed
    cases failed
  · intro fatal
    obtain ⟨before, i, after, split, goesOn, fatal⟩ := exists_first_fatal fatal
    obtain ⟨e, he⟩ := exists_fatalError fatal before.length
    exact ⟨_, (s.evaluate_of_fatal v source split goesOn he).1⟩
  · intro before i after split goesOn fatal
    obtain ⟨e, he⟩ := exists_fatalError fatal before.length
    obtain ⟨outcome, depth⟩ := s.evaluate_of_fatal v source split goesOn he
    rw [outcome]
    refine ⟨?_, ?_, depth⟩
    · rintro code rfl
      cases he
      rfl
    · rintro rfl
      cases he
      rfl

/-- An unknown code is an error even where the value of a script is already there. -/
theorem evaluate_outcome_unknown : ∃ s : Script,
    Script.ofCode [.previous, .unknown 300, .halt] [] = .ok s ∧
      (s.evaluate (.ofWorld {}) (Stepper.mk 0 1)).outcome =
        .error (.error ⟨.unknownInstruction, some 1, ""⟩) ∧
      ((s.evaluate (.ofWorld {}) (Stepper.mk 0 1)).script.stack.values.length : Int) = 1 := by
  let s : Script :=
    ⟨[.previous, .unknown 300, .halt], [], ⟨[], 1⟩, 0.0, 1, Nat.le_refl 1, rfl⟩
  obtain ⟨stops, -, depth⟩ := (evaluate_outcome s (.ofWorld {}) (Stepper.mk 0 1)).2.1
    [.previous] (.unknown 300) [] rfl (by decide) rfl
  exact ⟨s, rfl, stops 300 rfl, depth⟩

end CabScript
