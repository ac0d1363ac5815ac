import CabScript.Proofs.Session

/-!
# Code that never runs, constants that are never taken

What stands behind the first `halt` is neither checked nor run, and constants that no instruction
takes are only counted. A script can be trimmed of both, and a host cannot tell it from what is left
by what is admitted nor by what its evaluations show, as long as the object is not turned around: a
shift of car numbers also counts the constants behind the `halt`, and stops if there are too many.

## Main definitions

* `Script.trimmed`: a script without the code that never runs and the constants that are not taken.

## Main statements

* `requiredDepth_congr`, `requiredDepth_of_enough`: what the check does not look at.
* `Script.session_trimmed`: a trimmed script shows the same.
* `dead_parts_inert`: scripts with the same code before the first `halt`.
-/

namespace CabScript

open Instruction

/-! ## The check -/

@[simp] theorem live_live (code : List Instruction) : live (live code) = live code :=
  live_eq_self (halt_notMem_live code)

/-- The check sees of the pool only whether it lasts. -/
theorem Budget.spendAll_of_enough {address : Nat} {l : List Instruction} {b b' : Budget}
    (spent : spendAll address l b = .ok b') {unread : Nat} (enough : totalPoolUse l ≤ unread) :
    spendAll address l { b with unread } =
      .ok { b' with unread := unread - totalPoolUse l } := by
  induction l generalizing address b unread with
  | nil =>
    cases spent
    rfl
  | cons i rest ih =>
    rw [totalPoolUse_cons] at enough
    rw [spendAll] at spent
    split at spent
    · rename_i next step
      obtain ⟨-, stack, limit, rfl⟩ := spend_eq_ok_iff.mp step
      have pool : i.poolUse ≤ unread := by omega
      have again : { b with unread }.spend address i =
          .ok { b.after i with unread := unread - i.poolUse } :=
        spend_eq_ok_iff.mpr ⟨pool, stack, limit, rfl⟩
      rw [spendAll, again]
      simp only
      rw [ih spent (by omega), totalPoolUse_cons, Nat.sub_sub]
    · cases spent

section RequiredDepth

variable {code code' : List Instruction} {poolSize depth : Nat}

/-- The check does not look behind the first `halt`. -/
theorem requiredDepth_congr (same : live code' = live code) (poolSize : Nat) :
    requiredDepth code' poolSize = requiredDepth code poolSize := by
  rw [requiredDepth_eq, requiredDepth_eq, same]

/-- The pool of an admitted script lasts. -/
theorem totalPoolUse_live_le (required : requiredDepth code poolSize = .ok depth) :
    totalPoolUse (live code) ≤ poolSize := by
  obtain ⟨b, spent, -, -⟩ := requiredDepth_eq_ok_iff.mp required
  have tallies := ((Tallies.start poolSize).spendAll spent).unread
  rw [List.nil_append] at tallies
  omega

/-- Nor does it matter how many constants are left over. -/
theorem requiredDepth_of_enough (required : requiredDepth code poolSize = .ok depth)
    {poolSize' : Nat} (enough : totalPoolUse (live code) ≤ poolSize') :
    requiredDepth code poolSize' = .ok depth := by
  obtain ⟨b, spent, single, deepest⟩ := requiredDepth_eq_ok_iff.mp required
  exact requiredDepth_eq_ok_iff.mpr ⟨_, Budget.spendAll_of_enough spent enough, single, deepest⟩

end RequiredDepth

namespace Script

/-- How making a script ends is decided by its required depth. -/
theorem capacity_ofCode (code : List Instruction) (constants : List Float) :
    (ofCode code constants).map (·.stack.capacity) =
      match requiredDepth code constants.length with
      | .ok depth =>
        if depth ≤ Stack.greatestCapacity then .ok depth
        else .error ⟨.stackOverflow, none, "capacity cannot be allocated"⟩
      | .error e => .error e := by
  cases required : requiredDepth code constants.length with
  | error e =>
    rw [ofCode_of_error required]
    rfl
  | ok depth =>
    rw [ofCode_of_ok required]
    by_cases granted : depth ≤ Stack.greatestCapacity
    · have memory : Stack.ofCapacity? depth = some ⟨[], depth⟩ := if_pos granted
      obtain ⟨s, made, new⟩ := assemble_of_granted memory ⟨depth, Nat.le_refl depth, required⟩
      rw [made]
      simp only [if_pos granted, Except.map, new.stack, Stack.capacity, List.length_nil,
        Nat.zero_add]
    · rw [assemble_of_refused (if_neg granted)]
      simp only [if_neg granted, Except.map]

/-- So scripts of the same required depth are made with the same capacity, or not made for the same
reason. -/
theorem capacity_ofCode_congr {code code' : List Instruction} {constants constants' : List Float}
    (same : requiredDepth code' constants'.length = requiredDepth code constants.length) :
    (ofCode code' constants').map (·.stack.capacity) =
      (ofCode code constants).map (·.stack.capacity) := by
  rw [capacity_ofCode, capacity_ofCode, same]

/-! ## Trimming -/

/-- The script without the code that never runs and the constants that are not taken. -/
def trimmed (s : Script) : Script where
  code := live s.code
  constants := s.constants.take (totalPoolUse (live s.code))
  stack := s.stack
  lastResult := s.lastResult
  admitted := by
    obtain ⟨depth, fits, required⟩ := s.admitted
    refine ⟨depth, fits, ?_⟩
    rw [List.length_take_of_le (totalPoolUse_live_le required)]
    exact requiredDepth_of_enough ((requiredDepth_congr (live_live s.code) _).trans required)
      (by rw [live_live])

theorem totalPoolUse_le_constants (s : Script) :
    totalPoolUse (live s.code) ≤ s.constants.length := by
  obtain ⟨depth, -, required⟩ := s.admitted
  exact totalPoolUse_live_le required

variable {γ : Type} [WordSource γ]

/-- The constants that are not taken stay behind. -/
theorem runFor_trimmed (s : Script) (v : Viewpoint) (source : γ) :
    s.runFor v source = (s.trimmed.runFor v source).atop [] 0
      (s.constants.drop (totalPoolUse (live s.code))) := by
  have start : s.start source = (s.trimmed.start source).atop [] 0
      (s.constants.drop (totalPoolUse (live s.code))) := by
    simp only [Script.start, Pass.atop, Stack.clear, trimmed, List.append_nil, Nat.add_zero,
      List.take_append_drop]
  rw [runFor, ← run_live, start]
  exact run_atop (s.trimmed.runFor_ne_breach v source) [] 0 _

theorem observation_trimmed (s : Script) (v : Viewpoint) (source : γ) :
    (s.trimmed.evaluate v source).observation = (s.evaluate v source).observation := by
  rw [observation_evaluate, observation_evaluate, runFor_trimmed s, result_atop_nil]
  simp only [Ending.atop, Pass.atop, List.append_nil]

/-- Trimming before an evaluation leaves what trimming after it does. -/
theorem trimmed_evaluate (s : Script) (v : Viewpoint) (source : γ) :
    (s.evaluate v source).script.trimmed.SameButStack (s.trimmed.evaluate v source).script := by
  have outcome : (s.trimmed.evaluate v source).outcome = (s.evaluate v source).outcome :=
    congrArg Observation.outcome (s.observation_trimmed v source)
  constructor
  · show (s.trimmed.evaluate v source).script.code = live (s.evaluate v source).script.code
    rw [code_evaluate, code_evaluate]
    rfl
  · show (s.trimmed.evaluate v source).script.constants =
      (s.evaluate v source).script.constants.take
        (totalPoolUse (live (s.evaluate v source).script.code))
    rw [code_evaluate, constants_evaluate, constants_evaluate]
    rfl
  · show (s.trimmed.evaluate v source).script.lastResult =
      (s.evaluate v source).script.lastResult
    rw [lastResult_evaluate, lastResult_evaluate, outcome]
    rfl

/-- What is left of a script answers in its place. -/
theorem isSimulation_trimmed {requests : List (Request γ)}
    (unturned : ∀ offset, .shiftCarIndices offset ∉ requests) :
    IsSimulation (fun s t => s.trimmed.SameButStack t) id requests where
  source _ := rfl
  evaluate := by
    intro s t same v _ _ source
    obtain ⟨seen, after⟩ := evaluate_congr same v source
    exact ⟨seen.trans (s.observation_trimmed v source), (s.trimmed_evaluate v source).trans after⟩
  withLastResult same x := same.withLastResult x
  shiftCarIndices _ offset mem := absurd mem (unturned offset)

/-- **A trimmed script cannot be told from the whole one,** as long as the object is not turned
around. -/
theorem session_trimmed (s : Script) (source : γ) {requests : List (Request γ)}
    (unturned : ∀ offset, .shiftCarIndices offset ∉ requests) :
    s.trimmed.session source requests = s.session source requests :=
  ((isSimulation_trimmed unturned).session_eq ⟨rfl, rfl, rfl⟩ source).trans (List.map_id _)

/-- Scripts that are the same once they are trimmed show the same. -/
theorem session_of_trimmed {s t : Script} (same : s.trimmed.SameButStack t.trimmed) (source : γ)
    {requests : List (Request γ)} (unturned : ∀ offset, .shiftCarIndices offset ∉ requests) :
    t.session source requests = s.session source requests := by
  rw [← t.session_trimmed source unturned, session_congr same, s.session_trimmed source unturned]

end Script

/-- **What never runs and what is never taken does not exist,** neither for the check nor for an
evaluation. Let `code` have no `halt`.

* With a `halt` and anything at all behind it, `code` is admitted for the same capacity, or refused
  with the same error at the same address: the end of a list is where a `halt` would be.
* If it is admitted, it is so with any constants behind its own, and from equal last results on the
  two scripts show the same in any evaluations, whatever is seen, drawn from and set in between. -/
theorem dead_parts_inert {γ : Type} [WordSource γ] {code : List Instruction} (noHalt : halt ∉ code)
    (behind : List Instruction) (constants : List Float) :
    (Script.ofCode (code ++ halt :: behind) constants).map (·.stack.capacity) =
      (Script.ofCode code constants).map (·.stack.capacity) ∧
    ∀ (extra : List Float) (s : Script), Script.ofCode code constants = .ok s →
      ∃ t, Script.ofCode (code ++ halt :: behind) (constants ++ extra) = .ok t ∧
        t.stack.capacity = s.stack.capacity ∧
        ∀ (x : Float) (source : γ) (requests : List (Request γ)),
          (∀ offset, .shiftCarIndices offset ∉ requests) →
            (t.withLastResult x).session source requests =
              (s.withLastResult x).session source requests := by
  have alive : live (code ++ halt :: behind) = live code := by
    rw [live_append noHalt, live_halt, List.append_nil, live_eq_self noHalt]
  refine ⟨Script.capacity_ofCode_congr (requiredDepth_congr alive _), fun extra s made => ?_⟩
  obtain ⟨depth, required, new⟩ := Script.new_of_ofCode made
  have lasts : totalPoolUse (live code) ≤ constants.length := totalPoolUse_live_le required
  have same : requiredDepth (code ++ halt :: behind) (constants ++ extra).length =
      requiredDepth code constants.length := by
    rw [requiredDepth_congr alive, required]
    exact requiredDepth_of_enough required (by rw [List.length_append]; omega)
  have capacity := Script.capacity_ofCode_congr same
  rw [made] at capacity
  cases made' : Script.ofCode (code ++ halt :: behind) (constants ++ extra) with
  | error e =>
    rw [made'] at capacity
    cases capacity
  | ok t =>
    rw [made'] at capacity
    obtain ⟨_, -, new'⟩ := Script.new_of_ofCode made'
    have code : live t.code = live s.code := by rw [new'.code, new.code, alive]
    have taken : t.constants.take (totalPoolUse (live t.code)) =
        s.constants.take (totalPoolUse (live s.code)) := by
      rw [code, new.code, new'.constants, new.constants, List.take_append_of_le_length lasts]
    refine ⟨t, rfl, Except.ok.inj capacity, fun x source requests unturned => ?_⟩
    have same : (s.withLastResult x).trimmed.SameButStack (t.withLastResult x).trimmed :=
      ⟨code, taken, rfl⟩
    exact Script.session_of_trimmed same source unturned

/-- Behind the end: too few values, what no script may have, and more constants than there can
be. -/
theorem dead_parts_inert_malformed : halt ∉ [constant] ∧
    ∃ s t, Script.ofCode [constant] [1.0] = .ok s ∧
      Script.ofCode [constant, halt, swap, unknown 300, panelTimetable, constants (2 ^ 64 - 1)]
        [1.0, 2.0, 3.0] = .ok t ∧
      t.stack.capacity = s.stack.capacity ∧
      ∀ requests : List (Request Stepper), (∀ offset, .shiftCarIndices offset ∉ requests) →
        (t.withLastResult 0.0).session ⟨0, 1⟩ requests =
          (s.withLastResult 0.0).session ⟨0, 1⟩ requests := by
  have noHalt : halt ∉ [constant] := by decide
  let s : Script := ⟨[constant], [1.0], ⟨[], 1⟩, 0.0, 1, Nat.le_refl 1, rfl⟩
  obtain ⟨t, made, capacity, same⟩ := (dead_parts_inert (γ := Stepper) noHalt
    [swap, unknown 300, panelTimetable, constants (2 ^ 64 - 1)] [1.0]).2 [2.0, 3.0] s rfl
  exact ⟨noHalt, s, t, rfl, made, capacity, same 0.0 ⟨0, 1⟩⟩

end CabScript
