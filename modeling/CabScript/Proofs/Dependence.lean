import CabScript.Proofs.Session

/-!
# What a run depends on

A run reads the scene, the last result and the source only through what its instructions yield. Two
runs of the same instructions therefore stay together as long as each instruction that is reached
yields the same values in both: the stacks are equal after every step, and the sources keep whatever
relation the instructions keep. The relation can be between sources of different kinds.

## Main definitions

* `Instruction.YieldsAlike`: an instruction yields the same in two settings.
* `Instruction.SeesAlike`: an instruction finds the same in two settings.
* `Pass.Related`: two passes differ at most in their sources, which are related.

## Main statements

* `yield_of_seesAlike`, `yield_of_not_draw`: what an instruction yields comes from what it finds.
* `run_related`: two runs stay together.
* `Script.evaluate_related`: so do two evaluations.
-/

namespace CabScript

open Instruction

variable {γ δ : Type} {R : γ → δ → Prop}

/-- Two passes differ at most in their sources, which are related. -/
structure Pass.Related (R : γ → δ → Prop) (p : Pass γ) (q : Pass δ) : Prop where
  stack : q.stack = p.stack
  unread : q.unread = p.unread
  source : R p.source q.source

theorem Pass.Related.affords {p : Pass γ} {q : Pass δ} (h : p.Related R q) {i : Instruction}
    (affords : p.Affords i) : q.Affords i where
  values := h.stack ▸ affords.values
  constants := h.unread ▸ affords.constants
  room := h.stack ▸ affords.room

variable [WordSource γ] [WordSource δ]

/-- An instruction yields the same values in two settings, and keeps sources related. -/
def Instruction.YieldsAlike (R : γ → δ → Prop) (setting setting' : Setting) (i : Instruction) :
    Prop :=
  ∀ (popped taken : List Float) (source : γ) (source' : δ), R source source' →
    (i.yield setting' popped taken source').1 = (i.yield setting popped taken source).1 ∧
      R (i.yield setting popped taken source).2 (i.yield setting' popped taken source').2

/-! ## What an instruction finds -/

/-- An instruction finds the same in two settings. -/
def Instruction.SeesAlike (setting setting' : Setting) : Instruction → Prop
  | previous => setting'.previous = setting.previous
  | query q => q.read setting'.viewpoint = q.read setting.viewpoint
  | queryAt q => ∀ operand,
      q.read setting'.viewpoint operand = q.read setting.viewpoint operand
  | _ => True

section Yield

variable {setting setting' : Setting} {i : Instruction}

/-- What stays on the stack finds the same everywhere. -/
theorem seesAlike_of_isPure (pure : i.isPure = true) (setting setting' : Setting) :
    i.SeesAlike setting setting' := by
  cases i with
  | previous | query | queryAt => cases pure
  | _ => trivial

/-- **An instruction that finds the same yields the same.** -/
theorem yield_of_seesAlike (alike : i.SeesAlike setting setting') (popped taken : List Float)
    (source : γ) : i.yield setting' popped taken source = i.yield setting popped taken source := by
  cases i with
  | previous =>
    have last : setting'.previous = setting.previous := alike
    simp only [Instruction.yield, last]
  | query q =>
    have read : q.read setting'.viewpoint = q.read setting.viewpoint := alike
    simp only [Instruction.yield, read]
  | queryAt q =>
    have read : ∀ operand,
        q.read setting'.viewpoint operand = q.read setting.viewpoint operand := alike
    rcases popped with _ | ⟨a, _ | ⟨b, popped⟩⟩
    · rfl
    · simp only [Instruction.yield, read]
    · rfl
  | copy | unary => rcases popped with _ | ⟨a, _ | ⟨b, popped⟩⟩ <;> rfl
  | swap | binary | draw => rcases popped with _ | ⟨b, _ | ⟨a, _ | ⟨c, popped⟩⟩⟩ <;> rfl
  | ternary => rcases popped with _ | ⟨c, _ | ⟨b, _ | ⟨a, _ | ⟨d, popped⟩⟩⟩⟩ <;> rfl
  | halt | constant | constants | panelTimetable | unknown => rfl

/-- **An instruction other than a draw leaves the source alone,** and yields the same from all. -/
theorem yield_of_not_draw (undrawn : ∀ d, i ≠ draw d) (setting : Setting)
    (popped taken : List Float) (source : γ) (source' : δ) :
    i.yield setting popped taken source' = ((i.yield setting popped taken source).1, source') := by
  cases i with
  | draw d => exact absurd rfl (undrawn d)
  | copy | unary | queryAt => rcases popped with _ | ⟨a, _ | ⟨b, popped⟩⟩ <;> rfl
  | swap | binary => rcases popped with _ | ⟨b, _ | ⟨a, _ | ⟨c, popped⟩⟩⟩ <;> rfl
  | ternary => rcases popped with _ | ⟨c, _ | ⟨b, _ | ⟨a, _ | ⟨d, popped⟩⟩⟩⟩ <;> rfl
  | halt | constant | constants | previous | query | panelTimetable | unknown => rfl

theorem yieldsAlike_of_seesAlike (alike : i.SeesAlike setting setting') :
    i.YieldsAlike (fun a b : γ => b = a) setting setting' := by
  rintro popped taken source _ rfl
  rw [yield_of_seesAlike alike]
  exact ⟨rfl, rfl⟩

theorem yieldsAlike_of_undrawn (alike : i.SeesAlike setting setting')
    (undrawn : ∀ d, i ≠ draw d) (R : γ → δ → Prop) : i.YieldsAlike R setting setting' := by
  intro popped taken source source' related
  rw [yield_of_seesAlike alike, yield_of_not_draw undrawn setting popped taken source source',
    yield_of_not_draw undrawn setting popped taken source source]
  exact ⟨rfl, related⟩

end Yield

/-! ## Runs and evaluations -/

section Run

variable {setting setting' : Setting}

theorem Pass.Related.advance {p : Pass γ} {q : Pass δ} (h : p.Related R q) {i : Instruction}
    (alike : i.YieldsAlike R setting setting') :
    (p.advance setting i).Related R (q.advance setting' i) := by
  obtain ⟨values, sources⟩ := alike (p.stack.values.take i.pops) (p.unread.take i.poolUse)
    p.source q.source h.source
  constructor
  · simp only [Pass.advance, Pass.yield, h.stack, h.unread, values]
  · simp only [Pass.advance, h.unread]
  · simp only [Pass.advance, Pass.yield, h.stack, h.unread]
    exact sources

/-- A step that can be taken in one pass can be taken in the other. -/
theorem step_related {address : Nat} {p p' : Pass γ} {q : Pass δ} {i : Instruction}
    (alike : i.YieldsAlike R setting setting') (h : p.Related R q)
    (stepped : i.step setting address p = .ok p') :
    ∃ q', i.step setting' address q = .ok q' ∧ p'.Related R q' := by
  obtain ⟨goesOn, affords, rfl⟩ := step_eq_ok_iff.mp stepped
  exact ⟨_, step_of_affords goesOn (h.affords affords), h.advance alike⟩

/-- **Two runs stay together** as long as the instructions that are reached yield the same, unless
the first one breaks a bound. -/
theorem run_related {address : Nat} {l : List Instruction} {p : Pass γ} {q : Pass δ}
    (alike : ∀ i ∈ live l, i.YieldsAlike R setting setting') (h : p.Related R q)
    (safe : ∀ b, (run setting address l p).failure ≠ some (.breach b)) :
    ∃ q', run setting' address l q = ⟨(run setting address l p).failure, q'⟩ ∧
      (run setting address l p).pass.Related R q' := by
  fun_induction run setting address l p generalizing q with
  | case1 => exact ⟨q, rfl, h⟩
  | case2 => exact ⟨q, rfl, h⟩
  | case3 address i rest p hi p' stepped ih =>
    rw [live_cons hi] at alike
    obtain ⟨alike, restAlike⟩ := List.forall_mem_cons.mp alike
    obtain ⟨q', stepped', h'⟩ := step_related alike h stepped
    rw [run_cons hi, stepped']
    exact ih restAlike h' safe
  | case4 address i rest p hi failure stopped =>
    cases failure with
    | breach b => exact absurd rfl (safe b)
    | error e =>
      have again : i.step setting' address q = .error (.error e) :=
        step_eq_error_iff.mpr (step_eq_error_iff.mp stopped)
      rw [run_cons hi, again]
      exact ⟨q, rfl, h⟩

end Run

/-- **Two evaluations stay together** if the scripts have the same instructions, constants and
capacity, and the instructions yield the same for what the elements see and for the last results. -/
theorem Script.evaluate_related {s t : Script} (code : t.code = s.code)
    (constants : t.constants = s.constants) (capacity : t.stack.capacity = s.stack.capacity)
    {v v' : Viewpoint}
    (alike : ∀ i ∈ live s.code, i.YieldsAlike R ⟨v, s.lastResult⟩ ⟨v', t.lastResult⟩)
    {source : γ} {source' : δ} (sources : R source source') :
    (t.evaluate v' source').outcome = (s.evaluate v source).outcome ∧
      (t.evaluate v' source').script.stack = (s.evaluate v source).script.stack ∧
      R (s.evaluate v source).source (t.evaluate v' source').source := by
  have start : (s.start source).Related R (t.start source') := by
    refine ⟨?_, constants, sources⟩
    simp only [Script.start, Stack.clear, capacity]
  obtain ⟨q, ran, related⟩ := run_related alike start (s.runFor_ne_breach v source)
  have ran' : t.runFor v' source' = ⟨(s.runFor v source).failure, q⟩ := by
    rw [runFor, code]
    exact ran
  rw [outcome_evaluate, outcome_evaluate, stack_evaluate, stack_evaluate, source_evaluate,
    source_evaluate, ran']
  refine ⟨?_, related.stack, related.source⟩
  have stack : q.stack = (s.runFor v source).pass.stack := related.stack
  simp only [Ending.result, stack]

end CabScript
