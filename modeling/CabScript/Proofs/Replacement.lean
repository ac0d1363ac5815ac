import CabScript.Proofs.Trimming

/-!
# Instructions in place of others

An instruction can be replaced by several that do the same together: the check counts the same over
them, and from any pass they lead to where the one instruction leads. If all instructions of a
script are replaced in this way, it is admitted with the same depth and shows the same, except that
what comes later stands at another address.

## Main definitions

* `Instruction.CostsAs`, `Instruction.RunsAs`: instructions that can stand in place of another one.
* `replacedAddress`: where an instruction stands once those before it are replaced.
* `Script.Replaces`: scripts that differ in their stacks and in such instructions.

## Main statements

* `requiredDepth_flatten`, `requiredDepth_flatten_error`: the check counts the same.
* `run_flatten`: a run ends the same, but for the address of its error.
* `Script.session_flatten`: so do all evaluations that a host asks for.
-/

namespace CabScript

open Instruction

/-- Instructions cost what another one costs. They end or stop a script if it does, the check counts
the same over them, and it refuses them for the same cause. -/
structure Instruction.CostsAs (i : Instruction) (l : List Instruction) : Prop where
  ends : i = halt → l = [halt]
  goesOn : i ≠ halt → halt ∉ l
  stops : i.isFatal = true → l = [i]
  spends : ∀ {b b' : Budget} {address : Nat}, b.depth ≤ b.deepest →
    b.spend address i = .ok b' → ∀ address', Budget.spendAll address' l b = .ok b'
  /-- The depth stays within its bound, so it is not what is refused. -/
  refuses : ∀ {b : Budget} {e : Error} {address : Nat}, b.depth ≤ b.deepest →
    b.depth + b.unread + 1 < Budget.depthLimit → b.spend address i = .error e →
      ∀ address', ∃ e', Budget.spendAll address' l b = .error e' ∧ e'.fault = e.fault

/-- Instructions do in a setting what another one does, if it can be taken. -/
def Instruction.RunsAs (γ : Type) [WordSource γ] (setting : Setting) (i : Instruction)
    (l : List Instruction) : Prop :=
  ∀ (address : Nat) (p p' : Pass γ), i.step setting address p = .ok p' →
    ∀ address', run setting address' l p = ⟨none, p'⟩

/-- Where the instruction at an address stands once those before it are replaced. -/
def replacedAddress (parts : List (List Instruction)) (address : Nat) : Nat :=
  (parts.take address).flatten.length

@[simp] theorem replacedAddress_zero (parts : List (List Instruction)) :
    replacedAddress parts 0 = 0 := rfl

theorem replacedAddress_cons (l : List Instruction) (parts : List (List Instruction))
    (address : Nat) :
    replacedAddress (l :: parts) (address + 1) = l.length + replacedAddress parts address := by
  simp only [replacedAddress, List.take_succ_cons, List.flatten_cons, List.length_append]

/-! ## The check -/

namespace Budget

variable {code : List Instruction} {parts : List (List Instruction)} {b : Budget} {address : Nat}

/-- An instruction other than `halt` is counted. -/
theorem walk_cons {i : Instruction} (h : i ≠ halt) (address : Nat) (rest : List Instruction)
    (b : Budget) :
    walk address (i :: rest) b =
      match b.spend address i with
      | .ok b => walk (address + 1) rest b
      | .error e => .error e :=
  walk.eq_3 address b i rest h

/-- The address of an instruction is only reported. -/
theorem spend_address {b' : Budget} {i : Instruction} (spent : b.spend address i = .ok b')
    (address' : Nat) : b.spend address' i = .ok b' :=
  spend_eq_ok_iff.mpr (spend_eq_ok_iff.mp spent)

theorem exists_spend_error {i : Instruction} {e : Error} (refused : b.spend address i = .error e)
    (address' : Nat) : ∃ e', b.spend address' i = .error e' ∧ e'.fault = e.fault := by
  unfold spend at refused ⊢
  simp only at refused ⊢
  split_ifs at refused ⊢
  all_goals cases refused
  all_goals exact ⟨_, rfl, rfl⟩

theorem spendAll_singleton (address : Nat) (i : Instruction) (b : Budget) :
    spendAll address [i] b = b.spend address i := by
  simp only [spendAll]
  cases b.spend address i <;> rfl

theorem close_address {depth : Nat} (passed : b.close address = .ok depth) (address' : Nat) :
    b.close address' = .ok depth := by
  unfold close at passed ⊢
  split at passed <;> cases passed
  simp [*]

theorem exists_close_error {e : Error} (refused : b.close address = .error e) (address' : Nat) :
    ∃ e', b.close address' = .error e' ∧ e'.fault = e.fault := by
  unfold close at refused ⊢
  split at refused <;> cases refused
  simp [*]

/-- Every step leaves the depth within the greatest depth. -/
theorem depth_le_deepest_of_spend {b' : Budget} {i : Instruction}
    (spent : b.spend address i = .ok b') : b'.depth ≤ b'.deepest := by
  obtain ⟨-, -, -, rfl⟩ := spend_eq_ok_iff.mp spent
  exact Nat.le_max_right ..

/-- Every step keeps the depth away from its bound, by the constants and the instructions left. -/
theorem depth_add_unread_le_of_spend {b' : Budget} {i : Instruction}
    (spent : b.spend address i = .ok b') : b'.depth + b'.unread ≤ b.depth + b.unread + 1 := by
  obtain ⟨pool, stack, -, rfl⟩ := spend_eq_ok_iff.mp spent
  have := pushes_le i
  simp only [after]
  omega

/-- **The check passes what stands in place of code that it passes,** with the same depth. -/
theorem walk_flatten (costs : List.Forall₂ CostsAs code parts) {depth : Nat}
    (deep : b.depth ≤ b.deepest) (passed : walk address code b = .ok depth) (address' : Nat) :
    walk address' parts.flatten b = .ok depth := by
  induction costs generalizing b address address' with
  | nil => exact close_address passed address'
  | @cons i l rest parts cost costs ih =>
    rw [List.flatten_cons]
    by_cases hi : i = halt
    · subst hi
      rw [cost.ends rfl]
      exact close_address passed address'
    · rw [walk_cons hi] at passed
      rw [walk_append (cost.goesOn hi)]
      split at passed
      · rename_i b' spent
        rw [cost.spends deep spent address']
        exact ih (depth_le_deepest_of_spend spent) passed _
      · cases passed

/-- **It refuses what stands in place of code that it refuses,** for the same cause. -/
theorem walk_flatten_error (costs : List.Forall₂ CostsAs code parts) {e : Error}
    (deep : b.depth ≤ b.deepest) (small : b.depth + b.unread + code.length < depthLimit)
    (refused : walk address code b = .error e) (address' : Nat) :
    ∃ e', walk address' parts.flatten b = .error e' ∧ e'.fault = e.fault := by
  induction costs generalizing b address address' with
  | nil => exact exists_close_error refused address'
  | @cons i l rest parts cost costs ih =>
    rw [List.flatten_cons]
    rw [List.length_cons] at small
    by_cases hi : i = halt
    · subst hi
      rw [cost.ends rfl]
      exact exists_close_error refused address'
    · rw [walk_cons hi] at refused
      rw [walk_append (cost.goesOn hi)]
      split at refused
      · rename_i b' spent
        rw [cost.spends deep spent address']
        have := depth_add_unread_le_of_spend spent
        exact ih (depth_le_deepest_of_spend spent) (by omega) refused _
      · rename_i spent
        cases refused
        obtain ⟨e', refused', cause⟩ := cost.refuses deep (by omega) spent address'
        rw [refused']
        exact ⟨e', rfl, cause⟩

end Budget

section RequiredDepth

variable {code : List Instruction} {parts : List (List Instruction)} {poolSize : Nat}

/-- So what stands in place of admitted code is admitted with the same depth, -/
theorem requiredDepth_flatten (costs : List.Forall₂ CostsAs code parts) {depth : Nat}
    (required : requiredDepth code poolSize = .ok depth) :
    requiredDepth parts.flatten poolSize = .ok depth :=
  Budget.walk_flatten costs (Nat.le_refl 0) required 0

/-- and in place of other code refused for the same cause. -/
theorem requiredDepth_flatten_error (costs : List.Forall₂ CostsAs code parts)
    (small : code.length + poolSize < Budget.depthLimit) {e : Error}
    (refused : requiredDepth code poolSize = .error e) :
    ∃ e', requiredDepth parts.flatten poolSize = .error e' ∧ e'.fault = e.fault :=
  Budget.walk_flatten_error costs (Nat.le_refl 0) (by simp only; omega) refused 0

end RequiredDepth

/-- An instruction costs what it costs. -/
theorem Instruction.CostsAs.self (i : Instruction) : i.CostsAs [i] where
  ends := by
    rintro rfl
    rfl
  goesOn hi := by simpa using hi.symm
  stops _ := rfl
  spends _ spent address' := by
    rw [Budget.spendAll_singleton, Budget.spend_address spent]
  refuses _ _ refused address' := by
    rw [Budget.spendAll_singleton]
    exact Budget.exists_spend_error refused address'

/-! ## Errors at other addresses -/

/-- An error at another address. -/
def Error.readdress (f : Nat → Nat) (e : Error) : Error :=
  { e with address := e.address.map f }

/-- A failure at another address. -/
def Failure.readdress (f : Nat → Nat) : Failure → Failure
  | error e => error (e.readdress f)
  | breach b => breach b

/-- What a host sees, with an error at another address. -/
def Observation.readdress {γ : Type} (f : Nat → Nat) (o : Observation γ) : Observation γ :=
  { o with outcome := o.outcome.mapError (Failure.readdress f) }

/-- An instruction names in its error the address at which it stands. -/
theorem fatalError?_readdress {i : Instruction} {address : Nat} {e : Error}
    (fatal : i.fatalError? address = some e) (f : Nat → Nat) :
    i.fatalError? (f address) = some (e.readdress f) := by
  cases i <;> cases fatal <;> rfl

/-! ## Runs -/

section Run

variable {γ : Type} [WordSource γ] {setting : Setting}

/-- An instruction does what it does. -/
theorem Instruction.RunsAs.self (setting : Setting) (i : Instruction) :
    i.RunsAs γ setting [i] := by
  intro address p p' stepped address'
  by_cases hi : i = halt
  · subst hi
    cases stepped
    rfl
  · obtain ⟨goesOn, -, -⟩ := step_eq_ok_iff.mp stepped
    rw [run_cons hi, step_address goesOn setting _ address, stepped]
    rfl

/-- **A run over instructions in place of others** ends the same, with an error at the address where
the instruction stands then. -/
theorem run_flatten {address : Nat} {code : List Instruction} {parts : List (List Instruction)}
    {p : Pass γ} (costs : List.Forall₂ CostsAs code parts)
    (runs : List.Forall₂ (RunsAs γ setting) code parts)
    (safe : ∀ b, (run setting address code p).failure ≠ some (.breach b)) {f : Nat → Nat}
    {address' : Nat} (moved : ∀ k, f (address + k) = address' + replacedAddress parts k) :
    run setting address' parts.flatten p =
      ⟨(run setting address code p).failure.map (Failure.readdress f),
        (run setting address code p).pass⟩ := by
  fun_induction run setting address code p generalizing parts address' with
  | case1 =>
    cases costs
    rfl
  | case2 =>
    cases costs with
    | cons cost costs =>
      rw [cost.ends rfl]
      rfl
  | case3 address i rest p hi p' stepped ih =>
    cases costs with
    | cons cost costs =>
      cases runs with
      | cons own runs =>
        rw [List.flatten_cons, run_append (cost.goesOn hi), own _ _ _ stepped address']
        refine ih costs runs safe fun k => ?_
        rw [Nat.add_right_comm, Nat.add_assoc, moved, replacedAddress_cons, Nat.add_assoc]
  | case4 address i rest p hi failure stopped =>
    cases costs with
    | cons cost costs =>
      cases failure with
      | breach b => exact absurd rfl (safe b)
      | error e =>
        have here : f address = address' := moved 0
        have fatal := step_eq_error_iff.mp stopped
        have stops : i.isFatal = true := by cases i <;> first | rfl | cases fatal
        have again : i.step setting address' p = .error (.error (e.readdress f)) :=
          step_eq_error_iff.mpr (here ▸ fatalError?_readdress fatal f)
        rw [List.flatten_cons, cost.stops stops, List.singleton_append, run_cons hi, again]
        rfl

end Run

/-! ## Evaluations -/

namespace Script

/-- The script with other instructions in place of its own. -/
def replace (s : Script) {parts : List (List Instruction)}
    (costs : List.Forall₂ CostsAs s.code parts) : Script :=
  { s with
    code := parts.flatten
    admitted :=
      let ⟨depth, fits, required⟩ := s.admitted
      ⟨depth, fits, requiredDepth_flatten costs required⟩ }

section Made

variable {code : List Instruction} {parts : List (List Instruction)} {constants : List Float}

/-- Where the code is admitted, a stack of the same capacity is asked for. -/
theorem capacity_ofCode_flatten (costs : List.Forall₂ CostsAs code parts) {depth : Nat}
    (required : requiredDepth code constants.length = .ok depth) :
    (ofCode parts.flatten constants).map (·.stack.capacity) =
      (ofCode code constants).map (·.stack.capacity) := by
  apply capacity_ofCode_congr
  rw [requiredDepth_flatten costs required, required]

/-- So what stands in place of the code of a script makes a script of the same capacity, -/
theorem exists_ofCode_flatten (costs : List.Forall₂ CostsAs code parts) {s : Script}
    (made : ofCode code constants = .ok s) :
    ∃ t, ofCode parts.flatten constants = .ok t ∧ t.stack.capacity = s.stack.capacity := by
  obtain ⟨depth, required, -⟩ := new_of_ofCode made
  have same := capacity_ofCode_flatten costs required
  rw [made] at same
  cases made' : ofCode parts.flatten constants with
  | error e =>
    rw [made'] at same
    cases same
  | ok t =>
    rw [made'] at same
    exact ⟨t, rfl, Except.ok.inj same⟩

/-- and where there is no script there is none for the same cause. -/
theorem exists_ofCode_flatten_error (costs : List.Forall₂ CostsAs code parts)
    (small : code.length + constants.length < Budget.depthLimit) {e : Error}
    (refused : ofCode code constants = .error e) :
    ∃ e', ofCode parts.flatten constants = .error e' ∧ e'.fault = e.fault := by
  cases required : requiredDepth code constants.length with
  | error cause =>
    obtain ⟨e', refused', same⟩ := requiredDepth_flatten_error costs small required
    rw [ofCode_of_error required] at refused
    cases refused
    exact ⟨e', ofCode_of_error refused', same⟩
  | ok depth =>
    -- the depth is the same, so it is the memory that is not there
    have same := capacity_ofCode_flatten costs required
    rw [refused] at same
    cases made' : ofCode parts.flatten constants with
    | error e' =>
      rw [made'] at same
      exact ⟨e', rfl, congrArg Error.fault (Except.error.inj same)⟩
    | ok t =>
      rw [made'] at same
      cases same

/-- What stands in place of the code of a script makes a script of any capacity that the script can
have. -/
theorem exists_ofCodeWithCapacity_flatten (costs : List.Forall₂ CostsAs code parts)
    {capacity : Nat} {s : Script} (made : ofCodeWithCapacity code constants capacity = .ok s) :
    ∃ t, ofCodeWithCapacity parts.flatten constants capacity = .ok t ∧
      t.stack.capacity = s.stack.capacity := by
  have new := new_of_ofCodeWithCapacity made
  cases required : requiredDepth code constants.length with
  | error e =>
    rw [ofCodeWithCapacity_of_error required] at made
    cases made
  | ok depth =>
    rcases Nat.lt_or_ge capacity depth with short | fits
    · rw [ofCodeWithCapacity_of_lt required short] at made
      cases made
    · cases granted : Stack.ofCapacity? capacity with
      | none =>
        rw [ofCodeWithCapacity_of_le required fits, assemble_of_refused granted] at made
        cases made
      | some stack =>
        have required' := requiredDepth_flatten costs required
        obtain ⟨t, made', new'⟩ := assemble_of_granted granted ⟨depth, fits, required'⟩
        refine ⟨t, (ofCodeWithCapacity_of_le required' fits).trans made', ?_⟩
        rw [new'.stack, new.stack, Stack.eq_of_ofCapacity? granted]

end Made

variable {γ : Type} [WordSource γ] {s t : Script} {parts : List (List Instruction)}

/-- **A script with instructions in place of its own shows the same,** with errors at other
addresses. -/
theorem observation_replace (costs : List.Forall₂ CostsAs s.code parts) {v : Viewpoint}
    (runs : List.Forall₂ (RunsAs γ ⟨v, s.lastResult⟩) s.code parts) (source : γ) :
    ((s.replace costs).evaluate v source).observation =
      (s.evaluate v source).observation.readdress (replacedAddress parts) := by
  have ran : (s.replace costs).runFor v source =
      ⟨(s.runFor v source).failure.map (Failure.readdress (replacedAddress parts)),
        (s.runFor v source).pass⟩ :=
    run_flatten costs runs (s.runFor_ne_breach v source) fun k => by
      rw [Nat.zero_add, Nat.zero_add]
  rw [observation_evaluate, observation_evaluate, ran]
  simp only [Observation.readdress, Ending.result]
  cases (s.runFor v source).failure with
  | some failure => rfl
  | none =>
    simp only [Option.map_none]
    cases (s.runFor v source).pass.stack.top <;> rfl

/-- The same for a script that is made with these instructions, whatever its stack is. -/
theorem observation_flatten (costs : List.Forall₂ CostsAs s.code parts)
    (code : t.code = parts.flatten) (constants : t.constants = s.constants)
    (last : t.lastResult = s.lastResult) {v : Viewpoint}
    (runs : List.Forall₂ (RunsAs γ ⟨v, s.lastResult⟩) s.code parts) (source : γ) :
    (t.evaluate v source).observation =
      (s.evaluate v source).observation.readdress (replacedAddress parts) := by
  have same : (s.replace costs).SameButStack t := ⟨code, constants, last⟩
  rw [← observation_replace costs runs, (evaluate_congr same v source).1]

/-- One of two scripts has instructions in place of the `code` of the other, which do not differ
otherwise but in their stacks. -/
structure Replaces (code : List Instruction) (parts : List (List Instruction)) (s t : Script) :
    Prop where
  before : s.code = code
  after : t.code = parts.flatten
  constants : t.constants = s.constants
  lastResult : t.lastResult = s.lastResult

theorem Replaces.evaluate {code : List Instruction} (replaces : Replaces code parts s t)
    {v : Viewpoint} {source : γ}
    (seen : (t.evaluate v source).observation =
      (s.evaluate v source).observation.readdress (replacedAddress parts)) :
    Replaces code parts (s.evaluate v source).script (t.evaluate v source).script := by
  have outcome : (t.evaluate v source).outcome =
      (s.evaluate v source).outcome.mapError (Failure.readdress (replacedAddress parts)) :=
    congrArg Observation.outcome seen
  constructor
  · rw [code_evaluate, replaces.before]
  · rw [code_evaluate, replaces.after]
  · rw [constants_evaluate, constants_evaluate, replaces.constants]
  · rw [lastResult_evaluate, lastResult_evaluate, outcome, replaces.lastResult]
    cases (s.evaluate v source).outcome <;> rfl

theorem isSimulation_replaces {code : List Instruction} (costs : List.Forall₂ CostsAs code parts)
    {requests : List (Request γ)} (unturned : ∀ offset, .shiftCarIndices offset ∉ requests)
    (runs : ∀ v own, .evaluate v own ∈ requests →
      ∀ x, List.Forall₂ (RunsAs γ ⟨v, x⟩) code parts) :
    IsSimulation (Replaces code parts) (Observation.readdress (replacedAddress parts))
      requests where
  source _ := rfl
  evaluate := by
    intro s t replaces v own mem source
    obtain rfl := replaces.before
    have seen := observation_flatten costs replaces.after replaces.constants replaces.lastResult
      (runs v own mem s.lastResult) source
    exact ⟨seen, replaces.evaluate seen⟩
  withLastResult replaces _ := ⟨replaces.before, replaces.after, replaces.constants, rfl⟩
  shiftCarIndices _ offset mem := absurd mem (unturned offset)

/-- **Nor can the two be told apart later,** as long as the object is not turned around. -/
theorem session_flatten (costs : List.Forall₂ CostsAs s.code parts) (code : t.code = parts.flatten)
    (constants : t.constants = s.constants) (last : t.lastResult = s.lastResult)
    {requests : List (Request γ)} (unturned : ∀ offset, .shiftCarIndices offset ∉ requests)
    (runs : ∀ v own, .evaluate v own ∈ requests →
      ∀ x, List.Forall₂ (RunsAs γ ⟨v, x⟩) s.code parts) (source : γ) :
    t.session source requests =
      (s.session source requests).map (Observation.readdress (replacedAddress parts)) :=
  (isSimulation_replaces costs unturned runs).session_eq ⟨rfl, code, constants, last⟩ source

end Script

end CabScript
