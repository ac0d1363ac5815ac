import CabScript.Machine.Run
import CabScript.Script.Basic

/-!
# Evaluation

One pass over a script. It clears the stack and starts with the whole pool; the top of the stack at
the end is the result, which the script keeps for the next pass. A pass that fails leaves the last
result as it was.
-/

namespace CabScript

/-- The result at the end of a run: the top of the stack, if the run did not fail. -/
def Ending.result {γ : Type} (e : Ending γ) : Except Failure Float :=
  match e.failure with
  | some failure => .error failure
  | none =>
    match e.pass.stack.top with
    | .ok x => .ok x
    | .error b => .error (.breach b)

/-- What an evaluation yields. -/
structure Evaluation (γ : Type) where
  /-- The result, or why there is none. -/
  outcome : Except Failure Float
  /-- The script after it. -/
  script : Script
  /-- The source of random words after it. -/
  source : γ

namespace Script

variable {γ : Type} [WordSource γ]

/-- The pass before the first instruction. -/
def start (s : Script) (source : γ) : Pass γ where
  stack := s.stack.clear
  unread := s.constants
  source := source

/-- The run of the script for what an element sees. -/
def runFor (s : Script) (v : Viewpoint) (source : γ) : Ending γ :=
  run ⟨v, s.lastResult⟩ 0 s.code (s.start source)

theorem capacity_runFor (s : Script) (v : Viewpoint) (source : γ) :
    (s.runFor v source).pass.stack.capacity = s.stack.capacity :=
  (capacity_run ..).trans s.stack.capacity_clear

/-- Runs the script once for what an element sees. -/
def evaluate (s : Script) (v : Viewpoint) (source : γ) : Evaluation γ :=
  let ending := s.runFor v source
  let script := s.withStack ending.pass.stack (s.capacity_runFor v source)
  match ending.result with
  | .ok x => ⟨.ok x, script.withLastResult x, ending.pass.source⟩
  | .error failure => ⟨.error failure, script, ending.pass.source⟩

section

variable (s : Script) (v : Viewpoint) (source : γ)

theorem outcome_evaluate : (s.evaluate v source).outcome = (s.runFor v source).result := by
  simp only [evaluate]
  split <;> simp [*]

theorem source_evaluate : (s.evaluate v source).source = (s.runFor v source).pass.source := by
  simp only [evaluate]
  split <;> rfl

@[simp] theorem code_evaluate : (s.evaluate v source).script.code = s.code := by
  simp only [evaluate]
  split <;> rfl

@[simp] theorem constants_evaluate : (s.evaluate v source).script.constants = s.constants := by
  simp only [evaluate]
  split <;> rfl

theorem stack_evaluate :
    (s.evaluate v source).script.stack = (s.runFor v source).pass.stack := by
  simp only [evaluate]
  split <;> rfl

/-- The last result changes only if there is a new one. -/
theorem lastResult_evaluate :
    (s.evaluate v source).script.lastResult =
      ((s.evaluate v source).outcome.toOption).getD s.lastResult := by
  simp only [evaluate]
  split <;> rfl

end

end Script

end CabScript
