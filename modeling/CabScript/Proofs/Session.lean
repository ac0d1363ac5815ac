import CabScript.Proofs.Frame
import CabScript.Proofs.History

/-!
# What a host can tell apart

A host that keeps a script sees what its evaluations yield, the stacks they leave and what they
draw. All of this comes from the instructions, the constants and the last result: an evaluation
starts from an empty stack, so what earlier ones have left there is never read, nor does it matter
how much room there is beyond the required depth.

## Main definitions

* `Observation`: what a host sees of an evaluation.
* `Request`, `Script.calls`, `Script.session`: the requests of a host that hands a source on from one
  evaluation to the next, the calls that they come to, and what it sees of these.
* `Script.IsSimulation`: one script answers requests in place of another one.
* `Script.SameButStack`: two scripts differ in nothing but their stacks.

## Main statements

* `Script.IsSimulation.session_eq`: what a simulation says of a step holds of a session.
* `Script.evaluate_congr`: one evaluation of scripts that differ in their stacks.
* `Script.session_congr`: all evaluations.
* `evaluation_forgets_stack`: a failed evaluation changes nothing but the stack, and no later one
  reads the stack.
-/

namespace CabScript

/-- What a host sees of an evaluation. -/
structure Observation (γ : Type) where
  /-- The result, or why there is none. -/
  outcome : Except Failure Float
  /-- The values that are left on the stack. -/
  values : List Float
  /-- The source of random words after it. -/
  source : γ

def Evaluation.observation {γ : Type} (e : Evaluation γ) : Observation γ where
  outcome := e.outcome
  values := e.script.stack.values
  source := e.source

/-- What a host asks that hands a source on: an evaluation draws from a source that comes with the
request, or else from what the evaluation before has left. -/
abbrev Request (γ : Type) := Call (Option γ)

/-- The call that a request comes to when a source is at hand. -/
def Call.drawing {γ : Type} (source : γ) : Request γ → Call γ
  | .evaluate v own => .evaluate v (own.getD source)
  | .setLastResult x => .setLastResult x
  | .shiftCarIndices offset => .shiftCarIndices offset

namespace Script

variable {γ : Type} [WordSource γ]

/-- The calls that requests come to, from a source at hand. -/
def calls (s : Script) (source : γ) : List (Request γ) → List (Call γ)
  | [] => []
  | request :: rest =>
    let call := request.drawing source
    call :: (s.perform call).calls ((s.evaluation? call).elim source (·.source)) rest

/-- What a host sees of the evaluations among its requests, in their order. -/
def session (s : Script) (source : γ) (requests : List (Request γ)) : List (Observation γ) :=
  (s.evaluations (s.calls source requests)).map Evaluation.observation

section Session

variable (s : Script) (source : γ) (rest : List (Request γ))

@[simp] theorem session_nil : s.session source [] = [] := rfl

@[simp] theorem session_evaluate (v : Viewpoint) (own : Option γ) :
    s.session source (.evaluate v own :: rest) =
      (s.evaluate v (own.getD source)).observation ::
        (s.evaluate v (own.getD source)).script.session (s.evaluate v (own.getD source)).source
          rest :=
  rfl

@[simp] theorem session_setLastResult (x : Float) :
    s.session source (.setLastResult x :: rest) = (s.withLastResult x).session source rest :=
  rfl

@[simp] theorem session_shiftCarIndices (offset : Float) :
    s.session source (.shiftCarIndices offset :: rest) =
      (s.shiftCarIndices offset).session source rest :=
  rfl

end Session

/-! ## Simulations -/

/-- One script answers the `requests` in place of another one. Each request keeps the relation `R`
between the two, and an evaluation of the second one shows what the first one shows, as `shown` has
it. -/
structure IsSimulation (R : Script → Script → Prop) (shown : Observation γ → Observation γ)
    (requests : List (Request γ)) : Prop where
  /-- Both go on with the same source. -/
  source (o : Observation γ) : (shown o).source = o.source
  evaluate {s t : Script} (related : R s t) {v : Viewpoint} {own : Option γ}
    (mem : .evaluate v own ∈ requests) (source : γ) :
    (t.evaluate v source).observation = shown (s.evaluate v source).observation ∧
      R (s.evaluate v source).script (t.evaluate v source).script
  withLastResult {s t : Script} (related : R s t) (x : Float) :
    R (s.withLastResult x) (t.withLastResult x)
  shiftCarIndices {s t : Script} (related : R s t) {offset : Float}
    (mem : .shiftCarIndices offset ∈ requests) :
    R (s.shiftCarIndices offset) (t.shiftCarIndices offset)

namespace IsSimulation

variable {R : Script → Script → Prop} {shown : Observation γ → Observation γ}

/-- A simulation of requests is one of fewer. -/
theorem tail {request : Request γ} {rest : List (Request γ)}
    (sim : IsSimulation R shown (request :: rest)) : IsSimulation R shown rest where
  source := sim.source
  evaluate related _ _ mem := sim.evaluate related (List.mem_cons_of_mem _ mem)
  withLastResult := sim.withLastResult
  shiftCarIndices related _ mem := sim.shiftCarIndices related (List.mem_cons_of_mem _ mem)

/-- **A simulation goes on:** all that the second script shows is what the first one shows. -/
theorem session_eq {requests : List (Request γ)} (sim : IsSimulation R shown requests)
    {s t : Script} (related : R s t) (source : γ) :
    t.session source requests = (s.session source requests).map shown := by
  induction requests generalizing s t source with
  | nil => rfl
  | cons request rest ih =>
    cases request with
    | evaluate v own =>
      obtain ⟨seen, related⟩ := sim.evaluate related (List.mem_cons_self ..) (own.getD source)
      have left : (t.evaluate v (own.getD source)).source =
          (s.evaluate v (own.getD source)).source :=
        (congrArg Observation.source seen).trans (sim.source _)
      rw [session_evaluate, session_evaluate, List.map_cons, seen, left, ih sim.tail related]
    | setLastResult x => exact ih sim.tail (sim.withLastResult related x) source
    | shiftCarIndices offset =>
      exact ih sim.tail (sim.shiftCarIndices related (List.mem_cons_self ..)) source

end IsSimulation

/-- Two scripts differ in nothing but their stacks. -/
structure SameButStack (s t : Script) : Prop where
  code : t.code = s.code
  constants : t.constants = s.constants
  lastResult : t.lastResult = s.lastResult

theorem SameButStack.symm {s t : Script} (h : s.SameButStack t) : t.SameButStack s :=
  ⟨h.code.symm, h.constants.symm, h.lastResult.symm⟩

theorem SameButStack.trans {s t u : Script} (h : s.SameButStack t) (h' : t.SameButStack u) :
    s.SameButStack u :=
  ⟨h'.code.trans h.code, h'.constants.trans h.constants, h'.lastResult.trans h.lastResult⟩

/-! ## One evaluation -/

/-- No run of a script breaks a bound. -/
theorem runFor_ne_breach (s : Script) (v : Viewpoint) (source : γ) (b : Breach) :
    (s.runFor v source).failure ≠ some (.breach b) := by
  intro broken
  have outcome : (s.evaluate v source).outcome = .error (.breach b) := by
    rw [outcome_evaluate, Ending.result, broken]
  rcases s.outcome_evaluate_cases v source with ⟨x, h⟩ | ⟨i, address, e, -, h⟩
  · rw [outcome] at h
    cases h
  · rw [outcome] at h
    cases h

/-- More room than another script has makes no difference to the run. -/
theorem SameButStack.runFor_eq_atop {s t : Script} (same : s.SameButStack t)
    (le : s.stack.capacity ≤ t.stack.capacity) (v : Viewpoint) (source : γ) :
    t.runFor v source =
      (s.runFor v source).atop [] (t.stack.capacity - s.stack.capacity) [] := by
  have start : t.start source =
      (s.start source).atop [] (t.stack.capacity - s.stack.capacity) [] := by
    simp only [Script.start, Pass.atop, Stack.clear, List.append_nil, same.constants,
      Nat.add_sub_cancel' le]
  rw [runFor, start, same.code, same.lastResult]
  exact run_atop (s.runFor_ne_breach v source) [] _ []

omit [WordSource γ] in
theorem result_atop_nil (e : Ending γ) (extra : Nat) (rest : List Float) :
    (e.atop [] extra rest).result = e.result := by
  simp only [Ending.result, Ending.atop, Pass.atop, Stack.top, List.append_nil]

theorem observation_evaluate (s : Script) (v : Viewpoint) (source : γ) :
    (s.evaluate v source).observation =
      ⟨(s.runFor v source).result, (s.runFor v source).pass.stack.values,
        (s.runFor v source).pass.source⟩ := by
  rw [Evaluation.observation, outcome_evaluate, stack_evaluate, source_evaluate]

theorem SameButStack.observation_of_le {s t : Script} (same : s.SameButStack t)
    (le : s.stack.capacity ≤ t.stack.capacity) (v : Viewpoint) (source : γ) :
    (t.evaluate v source).observation = (s.evaluate v source).observation := by
  rw [observation_evaluate, observation_evaluate, same.runFor_eq_atop le, result_atop_nil]
  simp only [Ending.atop, Pass.atop, List.append_nil]

/-- **One evaluation** shows the same and leaves the same but for the stack. -/
theorem evaluate_congr {s t : Script} (same : s.SameButStack t) (v : Viewpoint) (source : γ) :
    (t.evaluate v source).observation = (s.evaluate v source).observation ∧
      (s.evaluate v source).script.SameButStack (t.evaluate v source).script := by
  have seen : (t.evaluate v source).observation = (s.evaluate v source).observation := by
    rcases Nat.le_total s.stack.capacity t.stack.capacity with le | le
    · exact same.observation_of_le le v source
    · exact (same.symm.observation_of_le le v source).symm
  have outcome : (t.evaluate v source).outcome = (s.evaluate v source).outcome :=
    congrArg Observation.outcome seen
  refine ⟨seen, ?_, ?_, ?_⟩
  · rw [code_evaluate, code_evaluate, same.code]
  · rw [constants_evaluate, constants_evaluate, same.constants]
  · rw [lastResult_evaluate, lastResult_evaluate, outcome, same.lastResult]

/-! ## All evaluations -/

theorem SameButStack.withLastResult {s t : Script} (same : s.SameButStack t) (x : Float) :
    (s.withLastResult x).SameButStack (t.withLastResult x) :=
  ⟨same.code, same.constants, rfl⟩

theorem SameButStack.shiftCarIndices {s t : Script} (same : s.SameButStack t) (offset : Float) :
    (s.shiftCarIndices offset).SameButStack (t.shiftCarIndices offset) where
  code := same.code
  constants := by
    show (t.shiftWalk .checked offset).pool.toList = (s.shiftWalk .checked offset).pool.toList
    rw [shiftWalk, same.code, same.constants, shiftWalk]
  lastResult := same.lastResult

theorem isSimulation_sameButStack (requests : List (Request γ)) :
    IsSimulation SameButStack id requests where
  source _ := rfl
  evaluate same v _ _ source := evaluate_congr same v source
  withLastResult := SameButStack.withLastResult
  shiftCarIndices same offset _ := same.shiftCarIndices offset

/-- **Scripts that differ in their stacks cannot be told apart,** whatever is asked of them. -/
theorem session_congr {s t : Script} (same : s.SameButStack t) (source : γ)
    (requests : List (Request γ)) : t.session source requests = s.session source requests :=
  ((isSimulation_sameButStack requests).session_eq same source).trans (List.map_id _)

end Script

/-- **A failed evaluation changes nothing but the stack, and no later one reads the stack.** After a
failure the last result, the constants, the instructions and the capacity are as they were. Two
states of a script that agree in the constants and the last result show the same from there on,
whatever their stacks hold: the same results and errors, the same stacks and the same draws. -/
theorem evaluation_forgets_stack {γ : Type} [WordSource γ] (s : Script) :
    (∀ (v : Viewpoint) (source : γ) (failure : Failure),
      (s.evaluate v source).outcome = .error failure →
        (s.evaluate v source).script.lastResult = s.lastResult ∧
        (s.evaluate v source).script.constants = s.constants ∧
        (s.evaluate v source).script.code = s.code ∧
        (s.evaluate v source).script.stack.capacity = s.stack.capacity) ∧
    ∀ t : Script, t.code = s.code → t.constants = s.constants → t.lastResult = s.lastResult →
      ∀ (source : γ) (requests : List (Request γ)),
        t.session source requests = s.session source requests := by
  constructor
  · intro v source failure failed
    refine ⟨?_, s.constants_evaluate v source, s.code_evaluate v source, ?_⟩
    · rw [Script.lastResult_evaluate, failed]
      rfl
    · rw [Script.stack_evaluate, Script.capacity_runFor]
  · intro t code constants lastResult source requests
    exact Script.session_congr ⟨code, constants, lastResult⟩ source requests

/-- A script that stops with a value on the stack, which no later evaluation finds there. -/
theorem evaluation_forgets_stack_abort : ∃ s : Script,
    Script.ofCode [.previous, .unknown 300, .halt] [] = .ok s ∧
      let after := (s.evaluate (.ofWorld {}) (Stepper.mk 0 1)).script
      after.stack.values ≠ s.stack.values ∧ after.lastResult = s.lastResult ∧
        ∀ requests : List (Request Stepper),
          after.session ⟨0, 1⟩ requests = s.session ⟨0, 1⟩ requests := by
  let s : Script :=
    ⟨[.previous, .unknown 300, .halt], [], ⟨[], 1⟩, 0.0, 1, Nat.le_refl 1, rfl⟩
  have failed : (s.evaluate (.ofWorld {}) (Stepper.mk 0 1)).outcome =
    .error (.error ⟨.unknownInstruction, some 1, ""⟩) := rfl
  obtain ⟨atomic, forgets⟩ := evaluation_forgets_stack (γ := Stepper) s
  obtain ⟨lastResult, constants, code, -⟩ := atomic _ _ _ failed
  exact ⟨s, rfl, List.cons_ne_nil _ _, lastResult, forgets _ code constants lastResult ⟨0, 1⟩⟩

end CabScript
