import CabScript.Proofs.Dependence
import CabScript.Proofs.Player
import CabScript.Proofs.PoolWalks
import CabScript.Proofs.RawStream

/-!
# Scripts that yield a constant

A host may evaluate a script once and never again if all its instructions are pure. That is sound:
what a pure instruction yields comes from the stack and the constants alone, it draws nothing, and
it never stops a script; and as no instruction of such a script takes the number of a car, no
constant is shifted when the object is turned around.

## Main statements

* `yieldsAlike_of_isPure`, `isPure_iff_code`: what makes an instruction pure, and which ones are.
* `Script.shiftCarIndices_of_isConstant`, `Script.evaluate_of_isConstant`: single calls.
* `Player.after_of_isConstant`: an element runs its script again and again, and never stops.
* `constant_script_repeats`: any history of a script, and any of an element.
-/

namespace CabScript

open Instruction

/-! ## Pure instructions -/

/-- A pure instruction yields the same in every setting, and draws nothing. -/
theorem yieldsAlike_of_isPure {γ δ : Type} [WordSource γ] [WordSource δ] {i : Instruction}
    (pure : i.isPure = true) (R : γ → δ → Prop) (setting setting' : Setting) :
    i.YieldsAlike R setting setting' := by
  refine yieldsAlike_of_undrawn (seesAlike_of_isPure pure setting setting') ?_ R
  rintro d rfl
  cases pure

/-- A pure instruction never stops a script. -/
theorem isFatal_of_isPure {i : Instruction} (pure : i.isPure = true) : i.isFatal = false := by
  cases i with
  | panelTimetable | unknown => cases pure
  | _ => rfl

/-- A pure instruction takes no number of a car. -/
theorem takesCarIndex_of_isPure {i : Instruction} (pure : i.isPure = true) :
    i.takesCarIndex = false := by
  cases i with
  | queryAt => cases pure
  | _ => rfl

/-- Whether a code is one of a pure instruction. The last result and the time since the previous
evaluation lie between the first two ranges, the draws between the last two. -/
def isPureCode (code : UInt16) : Bool :=
  code ≤ 2 || (5 ≤ code && code ≤ 13) || (16 ≤ code && code ≤ 47)

theorem isPure_catalogue : ∀ entry ∈ catalogue, entry.2.isPure = isPureCode entry.2.code := by
  decide +kernel

/-- **Which instructions are pure,** by their codes. A code that is taken for unknown is not pure,
even if it is one of these. -/
theorem isPure_iff_code {i : Instruction} :
    i.isPure = true ↔ isPureCode i.code = true ∧ ∀ code, i ≠ unknown code := by
  by_cases hidden : ∃ code, i = unknown code
  · obtain ⟨code, rfl⟩ := hidden
    simp [isPure]
  have known : ∀ code, i ≠ unknown code := by simpa using hidden
  by_cases block : ∃ count, i = constants count
  · obtain ⟨count, rfl⟩ := block
    simp [isPure, Instruction.code, blockCode, isPureCode]
  · have listed := mem_catalogue known (by simpa using block)
    rw [isPure_catalogue _ listed, and_iff_left known]

/-! ## Turning an object around -/

/-- Where no instruction takes the number of a car, no constant is one. -/
theorem notMem_carEntries_of_takesCarIndex {code : List Instruction}
    (h : ∀ i ∈ code, i.takesCarIndex = false) (k : Nat) : k ∉ carEntries code := by
  rintro ⟨address, feeds, -⟩
  obtain ⟨i, hi, takes⟩ := (Option.any_eq_true ..).mp feeds.2
  rw [h i (List.mem_of_getElem? hi)] at takes
  cases takes

/-! ## Constant scripts -/

namespace Script

variable {γ δ : Type} [WordSource γ] [WordSource δ] {s t : Script}

theorem isPure_of_isConstant (constant : s.isConstant = true) : ∀ i ∈ s.code, i.isPure = true :=
  List.all_eq_true.mp constant

theorem shiftCarIndices_of_isConstant (constant : s.isConstant = true) (offset : Float) :
    (s.shiftCarIndices offset).constants = s.constants := by
  refine List.ext_getElem? fun k => ?_
  apply (s.getElem?_constants_shiftCarIndicesBy offset (.inl rfl) k).2
  apply notMem_carEntries_of_takesCarIndex
  exact fun i hi => takesCarIndex_of_isPure (isPure_of_isConstant constant i hi)

omit [WordSource γ] [WordSource δ] in
theorem isConstant_congr (code : t.code = s.code) : t.isConstant = s.isConstant := by
  rw [isConstant, code, isConstant]

/-- No history of calls changes the constants. -/
theorem constants_afterCalls_of_isConstant (constant : s.isConstant = true)
    (calls : List (Call γ)) : (s.afterCalls calls).constants = s.constants := by
  induction calls generalizing s with
  | nil => rfl
  | cons call rest ih =>
    have kept : (s.perform call).constants = s.constants := by
      cases call with
      | evaluate v source => exact s.constants_evaluate v source
      | setLastResult x => rfl
      | shiftCarIndices offset => exact shiftCarIndices_of_isConstant constant offset
    have again := (isConstant_congr (s.alike_perform call).code).trans constant
    exact (ih again).trans kept

/-- A constant script has a result, whatever the element sees. -/
theorem evaluate_of_isConstant (constant : s.isConstant = true) (v : Viewpoint) (source : γ) :
    ∃ x, (s.evaluate v source).outcome = .ok x := by
  have goesOn : ∀ i ∈ live s.code, i.isFatal = false := fun i hi =>
    isFatal_of_isPure (isPure_of_isConstant constant i (mem_of_mem_live hi))
  obtain ⟨x, outcome, -⟩ := s.evaluate_of_goesOn v source goesOn
  exact ⟨x, outcome⟩

/-- **Two evaluations of a constant script are alike,** whatever the elements see, whatever the last
results were and whatever could be drawn. Nothing is drawn. -/
theorem evaluate_constant_congr (constant : s.isConstant = true) (code : t.code = s.code)
    (constants : t.constants = s.constants) (capacity : t.stack.capacity = s.stack.capacity)
    (v v' : Viewpoint) (source : γ) (source' : δ) :
    (t.evaluate v' source').outcome = (s.evaluate v source).outcome ∧
      (t.evaluate v' source').script.stack = (s.evaluate v source).script.stack ∧
      (t.evaluate v' source').source = source' := by
  -- related sources are those that nothing has been drawn from
  obtain ⟨outcome, stack, -, undrawn⟩ := evaluate_related
    (R := fun a b => a = source ∧ b = source') code constants capacity
    (fun i hi => yieldsAlike_of_isPure (isPure_of_isConstant constant i (mem_of_mem_live hi)) _
      ⟨v, s.lastResult⟩ ⟨v', t.lastResult⟩)
    ⟨rfl, rfl⟩
  exact ⟨outcome, stack, undrawn⟩

end Script

/-! ## Elements with a constant script -/

/-- An element whose script is constant goes on evaluating it, whatever cues it is given. -/
theorem Player.after_of_isConstant {γ : Type} [WordSource γ] {p : Player γ}
    (constant : p.element.script.isConstant = true) (running : p.element.isFaulted = false)
    (cues : List (Cue γ)) :
    ∃ calls : List (Call γ), (p.after cues).element =
      { p.element with script := p.element.script.afterCalls calls } := by
  induction cues generalizing p with
  | nil => exact ⟨[], rfl⟩
  | cons cue rest ih =>
    cases cue with
    | update v =>
      obtain ⟨x, outcome⟩ := Script.evaluate_of_isConstant constant v p.source
      have step : (p.perform (.update v)).1.element =
          { p.element with script := (p.element.script.evaluate v p.source).script } := by
        rw [perform, Element.update_of_ok running outcome]
      have again :=
        (Script.isConstant_congr (p.element.script.code_evaluate v p.source)).trans constant
      obtain ⟨calls, after⟩ := ih (p := (p.perform (.update v)).1) (by rwa [step])
        (by rwa [step])
      refine ⟨.evaluate v p.source :: calls, ?_⟩
      rw [step] at after
      exact after
    | reset =>
      have step : (p.perform .reset).1 = p := by
        rw [perform, Element.reset_of_running running]
      obtain ⟨calls, after⟩ := ih constant running
      refine ⟨calls, ?_⟩
      rw [Player.after, List.foldl_cons, step]
      exact after
    | setSource source => exact ih constant running

/-- **A host may evaluate a constant script once.** There are a value and a stack such that after
every history of calls an evaluation has this value as its result and leaves this stack, whatever
the element sees and whatever it could draw from; it draws nothing, and the constants are as they
were made. An element with such a script never stops, and shows the same in every frame. -/
theorem constant_script_repeats (s : Script) (constant : s.isConstant = true) :
    ∃ (x : Float) (stack : Stack),
      (∀ {γ δ : Type} [WordSource γ] [WordSource δ] (calls : List (Call γ)),
        (s.afterCalls calls).constants = s.constants ∧
        ∀ (v : Viewpoint) (source : δ),
          ((s.afterCalls calls).evaluate v source).outcome = .ok x ∧
          ((s.afterCalls calls).evaluate v source).script.stack = stack ∧
          ((s.afterCalls calls).evaluate v source).source = source) ∧
      ∀ e : Element, e.script = s → e.isFaulted = false →
        ∀ {γ δ : Type} [WordSource γ] [WordSource δ] (first : γ) (cues : List (Cue γ)),
          let after := ((Player.mk e first).after cues).element
          after.isFaulted = false ∧
          ∀ (v : Viewpoint) (source : δ),
            (after.update v source).value = Element.pin e.minimum e.maximum x ∧
            (after.update v source).notice = none ∧
            (after.update v source).source = source := by
  -- one evaluation decides all others
  let first := s.evaluate (.ofWorld {}) (Stepper.mk 0 1)
  obtain ⟨x, outcome⟩ := Script.evaluate_of_isConstant constant (.ofWorld {}) (Stepper.mk 0 1)
  have history {γ δ : Type} [WordSource γ] [WordSource δ] (calls : List (Call γ)) :
      (s.afterCalls calls).constants = s.constants ∧
      ∀ (v : Viewpoint) (source : δ),
        ((s.afterCalls calls).evaluate v source).outcome = .ok x ∧
        ((s.afterCalls calls).evaluate v source).script.stack = first.script.stack ∧
        ((s.afterCalls calls).evaluate v source).source = source := by
    have alike := s.alike_afterCalls calls
    have constants := Script.constants_afterCalls_of_isConstant constant calls
    refine ⟨constants, fun v source => ?_⟩
    obtain ⟨same, stack, undrawn⟩ := Script.evaluate_constant_congr constant alike.code constants
      alike.capacity (.ofWorld {}) v (Stepper.mk 0 1) source
    exact ⟨same.trans outcome, stack, undrawn⟩
  refine ⟨x, first.script.stack, history, ?_⟩
  rintro e rfl running γ δ _ _ source cues
  obtain ⟨calls, after⟩ :=
    Player.after_of_isConstant (p := Player.mk e source) constant running cues
  simp only [after]
  refine ⟨running, fun v source => ?_⟩
  obtain ⟨again, -, undrawn⟩ := (history calls).2 v source
  rw [Element.update_of_ok (e := { e with script := e.script.afterCalls calls }) running again]
  exact ⟨rfl, rfl, undrawn⟩

/-- A choice between two constants, in a history with another last result and a turn of the object,
and in an element that is pinned. -/
theorem constant_script_repeats_choice : ∃ s : Script,
    Script.ofCode [.constants 3, .ternary .choose, .halt] [0.0, 6.0, 4.0] = .ok s ∧
      s.isConstant = true ∧
      ∃ x, ((s.afterCalls [.evaluate (.ofWorld {}) (Stepper.mk 0 1), .setLastResult 8.0,
          .shiftCarIndices 1.0]).evaluate (.ofWorld {}) (Stepper.mk 7 2)).outcome = .ok x ∧
        (((Player.mk (Element.mk s none (some 5.0) false) (Stepper.mk 0 1)).after [.reset,
          .update (.ofWorld {})]).element.update (.ofWorld {}) (Stepper.mk 7 2)).value =
            Element.pin none (some 5.0) x := by
  let s : Script :=
    ⟨[.constants 3, .ternary .choose, .halt], [0.0, 6.0, 4.0], ⟨[], 3⟩, 0.0, 3, Nat.le_refl 3, rfl⟩
  have constant : s.isConstant = true := by decide
  obtain ⟨x, stack, history, elements⟩ := constant_script_repeats s constant
  exact ⟨s, rfl, constant, x, ((history _).2 _ _).1, ((elements _ rfl rfl _ _).2 _ _).1⟩

end CabScript
