import CabScript.Proofs.Alignment

/-!
# Which constants are numbers of cars

An instruction that takes the number of a car takes it from the top of the stack. If the
instruction in front of it pushes constants, the number is the last one of these: an entry of the
pool that can be seen from the code, whatever else the evaluation does. The shift of car numbers
finds it if the instruction in front pushes a single constant. What a block pushes is not shifted,
not even the last constant of a block that stands in front of such an instruction.

## Main definitions

* `LeavesCar`, `topEntries`: the constants that are on top of the stack in front of an instruction
  that takes the number of a car.

## Main statements

* `Script.Reaches.head?_values`: what is on top behind an instruction that pushes constants.
* `carEntries_eq_topEntries_iff`: when the shift finds all of them.
* `shiftCarIndices_shifts_single`: what the shift changes.
-/

namespace CabScript

open Instruction

/-- The instruction at an address pushes constants, the last of them right in front of an
instruction that takes the number of a car. -/
structure LeavesCar (code : List Instruction) (address : Nat) : Prop where
  pushes : ∃ i, code[address]? = some i ∧ 0 < i.poolUse
  taken : code[address + 1]?.any takesCarIndex = true

/-- The entries of the pool that are on top of the stack when an instruction takes the number of a
car. -/
def topEntries (code : List Instruction) : Set Nat :=
  {k | ∃ address, LeavesCar code address ∧ poolPosition code (address + 1) = k + 1}

/-! ## Found in the code -/

section Entries

variable {code : List Instruction} {address : Nat}

/-- A single constant is on top as soon as it is pushed. -/
theorem leavesCar_and_single_iff :
    LeavesCar code address ∧ code[address]? = some constant ↔ FeedsCar code address :=
  ⟨fun ⟨leaves, single⟩ => ⟨single, leaves.taken⟩,
    fun feeds => ⟨⟨⟨_, feeds.1, Nat.one_pos⟩, feeds.2⟩, feeds.1⟩⟩

/-- The last constant of the instruction is the one on top. -/
theorem LeavesCar.mem_poolEntries (leaves : LeavesCar code address) {k : Nat}
    (last : poolPosition code (address + 1) = k + 1) : k ∈ poolEntries code address := by
  obtain ⟨i, hi, pushes⟩ := leaves.pushes
  rw [poolPosition_succ hi] at last
  rw [CabScript.mem_poolEntries hi]
  omega

/-- **Where a constant is on top, the shift finds it if it is a single one.** -/
theorem LeavesCar.mem_carEntries_iff (leaves : LeavesCar code address) {k : Nat}
    (last : poolPosition code (address + 1) = k + 1) :
    k ∈ carEntries code ↔ code[address]? = some constant := by
  rw [CabScript.mem_carEntries_iff (leaves.mem_poolEntries last), ← leavesCar_and_single_iff]
  exact and_iff_right leaves

/-- What the shift finds is on top. -/
theorem carEntries_subset_topEntries (code : List Instruction) :
    carEntries code ⊆ topEntries code := by
  rintro _ ⟨address, feeds, rfl⟩
  exact ⟨address, (leavesCar_and_single_iff.mpr feeds).1, poolPosition_succ feeds.1⟩

/-- **The shift finds all that is on top** exactly if no block of constants stands in front of an
instruction that takes the number of a car. -/
theorem carEntries_eq_topEntries_iff :
    carEntries code = topEntries code ↔
      ∀ address, LeavesCar code address → code[address]? = some constant := by
  constructor
  · intro all address leaves
    obtain ⟨i, hi, pushes⟩ := leaves.pushes
    obtain ⟨k, last⟩ : ∃ k, poolPosition code (address + 1) = k + 1 :=
      Nat.exists_eq_add_one.mpr (by rw [poolPosition_succ hi]; omega)
    refine (leaves.mem_carEntries_iff last).mp ?_
    rw [all]
    exact ⟨address, leaves, last⟩
  · intro single
    refine (carEntries_subset_topEntries code).antisymm ?_
    rintro k ⟨address, leaves, last⟩
    exact (leaves.mem_carEntries_iff last).mpr (single address leaves)

end Entries

/-! ## Found by an evaluation -/

namespace Script

variable {γ : Type} [WordSource γ] {s : Script} {v : Viewpoint} {source : γ} {address : Nat}
  {i : Instruction}

/-- An evaluation comes to the next address by a step. -/
theorem Reaches.exists_step {p : Pass γ} (reached : s.Reaches v source (address + 1) p)
    (hi : (live s.code)[address]? = some i) :
    ∃ before, s.Reaches v source address before ∧
      i.step ⟨v, s.lastResult⟩ address before = .ok p := by
  obtain ⟨bound, entry⟩ := List.getElem?_eq_some_iff.mp (getElem?_of_live hi)
  have notHalt : i ≠ halt := by
    rintro rfl
    exact halt_notMem_live s.code (List.mem_of_getElem? hi)
  have ran := reached
  unfold Reaches at ran
  rw [List.take_succ_eq_append_getElem bound, run_append (halt_notMem_take hi), entry,
    length_take_of_live hi, Nat.zero_add] at ran
  split at ran
  · rename_i finished
    rw [run_cons notHalt] at ran
    split at ran
    · rename_i after stepped
      obtain rfl : after = p := congrArg Ending.pass ran
      refine ⟨_, ?_, stepped⟩
      unfold Reaches
      rw [← finished]
    · cases congrArg Ending.failure ran
  · rename_i failed
    rw [ran] at failed
    cases failed

/-- **Behind an instruction that pushes constants, the last of them is on top.** -/
theorem Reaches.head?_values {p : Pass γ} (reached : s.Reaches v source (address + 1) p)
    (hi : (live s.code)[address]? = some i) (pushes : 0 < i.poolUse) {k : Nat}
    (last : poolPosition s.code (address + 1) = k + 1) :
    p.stack.values.head? = s.constants[k]? := by
  obtain ⟨before, reached, stepped⟩ := reached.exists_step hi
  have push : i = .constant ∨ ∃ count, i = .constants count := by
    cases i with
    | constant => exact .inl rfl
    | constants count => exact .inr ⟨count, rfl⟩
    | _ => cases pushes
  obtain ⟨p', stepped', values⟩ := (serves hi push).pushed v source before reached
  obtain rfl : p = p' := Except.ok.inj (stepped.symm.trans stepped')
  have inside := poolPosition_add_le hi
  rw [poolPosition_succ (getElem?_of_live hi)] at last
  have share : ((s.constants.drop (poolPosition s.code address)).take i.poolUse).getLast? =
      some s.constants[k] := by
    rw [List.getLast?_eq_getElem?, List.length_take_of_le (by rw [List.length_drop]; omega),
      List.getElem?_take_of_lt (by omega), List.getElem?_drop, ← List.getElem?_eq_getElem]
    congr 1
    omega
  rw [values, List.head?_append, List.head?_reverse, share, List.getElem?_eq_getElem,
    Option.some_or]

end Script

/-- **The shift changes single constants that are numbers of cars.** Let a script have no `halt`.

* An entry of the pool that is found on top in front of an instruction that takes the number of a
  car is there in every evaluation that gets so far, and every one does if nothing before is fatal.
* Such an entry is shifted by the offset if it is pushed on its own; if it is the last one of a
  block it stays as it is. All other entries stay as well, and so does the length of the pool.
* So all of these entries are shifted exactly if no block, but an empty one, stands in front of an
  instruction that takes the number of a car. -/
theorem shiftCarIndices_shifts_single {γ : Type} [WordSource γ] {s : Script}
    (noHalt : halt ∉ s.code) (offset : Float) :
    (∀ address k, LeavesCar s.code address → poolPosition s.code (address + 1) = k + 1 →
      k < s.constants.length ∧
      (∀ (v : Viewpoint) (source : γ) (p : Pass γ), s.Reaches v source (address + 1) p →
        p.stack.values.head? = s.constants[k]?) ∧
      ((∀ i ∈ s.code.take (address + 1), i.isFatal = false) →
        ∀ (v : Viewpoint) (source : γ), ∃ p, s.Reaches v source (address + 1) p) ∧
      (s.code[address]? = some constant →
        (s.shiftCarIndices offset).constants[k]? = s.constants[k]?.map (· + offset)) ∧
      (s.code[address]? ≠ some constant →
        (s.shiftCarIndices offset).constants[k]? = s.constants[k]?)) ∧
    (∀ k ∉ topEntries s.code, (s.shiftCarIndices offset).constants[k]? = s.constants[k]?) ∧
    (s.shiftCarIndices offset).constants.length = s.constants.length ∧
    (carEntries s.code = topEntries s.code ↔
      ∀ address, LeavesCar s.code address → s.code[address]? = some constant) := by
  have alive : live s.code = s.code := live_eq_self noHalt
  refine ⟨fun address k leaves last => ?_, fun k notTop => ?_,
    s.length_constants_shiftCarIndicesBy .checked offset, carEntries_eq_topEntries_iff⟩
  · obtain ⟨i, hi, pushes⟩ := leaves.pushes
    obtain ⟨j, hj, -⟩ : ∃ j, s.code[address + 1]? = some j ∧ j.takesCarIndex = true :=
      (Option.any_eq_true ..).mp leaves.taken
    obtain ⟨car, other⟩ := s.getElem?_constants_shiftCarIndicesBy offset (.inl rfl) k
    have shifted := leaves.mem_carEntries_iff last
    rw [← alive] at hi hj
    refine ⟨?_, fun v source p reached => reached.head?_values hi pushes last,
      fun goesOn v source => ?_, fun single => car (shifted.mpr single),
      fun block => other (mt shifted.mp block)⟩
    · have inside := Script.poolPosition_add_le hi
      rw [← poolPosition_succ (getElem?_of_live hi)] at inside
      omega
    · obtain ⟨p, reached, -⟩ := Script.exists_reaches hj goesOn v source
      exact ⟨p, reached⟩
  · exact (s.getElem?_constants_shiftCarIndicesBy offset (.inl rfl) k).2
      (mt (carEntries_subset_topEntries s.code ·) notTop)

/-- The speed of the last car and the doors of a car that a block of two selects. The first of the
two numbers is shifted. -/
theorem shiftCarIndices_shifts_single_doors : ∃ s : Script,
    Script.ofCode [constant, queryAt (.car (.reading .speed)), constants 2,
      queryAt (.car (.doors none)), ternary .multiplyAdd] [-1.0, 4.0, 2.0] = .ok s ∧
    halt ∉ s.code ∧
      (s.shiftCarIndices 3.0).constants[0]? = some (-1.0 + 3.0) ∧
      (s.shiftCarIndices 3.0).constants[2]? = some 2.0 ∧
      (∀ (v : Viewpoint) (source : Stepper) (p : Pass Stepper), s.Reaches v source 3 p →
        p.stack.values.head? = some 2.0) ∧
      carEntries s.code ≠ topEntries s.code := by
  let s : Script := ⟨[constant, queryAt (.car (.reading .speed)), constants 2,
    queryAt (.car (.doors none)), ternary .multiplyAdd], [-1.0, 4.0, 2.0], ⟨[], 3⟩, 0.0, 3,
    Nat.le_refl 3, rfl⟩
  have noHalt : halt ∉ s.code := by decide
  have block : LeavesCar s.code 2 := ⟨⟨constants 2, rfl, by decide⟩, rfl⟩
  obtain ⟨entries, -, -, all⟩ := shiftCarIndices_shifts_single (γ := Stepper) noHalt 3.0
  obtain ⟨-, -, -, shifted, -⟩ := entries 0 0 ⟨⟨constant, rfl, by decide⟩, rfl⟩ rfl
  obtain ⟨-, top, -, -, left⟩ := entries 2 2 block rfl
  refine ⟨s, rfl, noHalt, shifted rfl, left (by decide), top, fun same => ?_⟩
  cases all.mp same 2 block

/-- A block of a single constant right in front of an instruction that takes the number of a car.
Every evaluation has the constant on top there, and the shift passes over it. -/
theorem shiftCarIndices_passes_over_block : ∃ s : Script,
    Script.ofCode [constants 1, queryAt (.car (.reading .speed))] [1.0] = .ok s ∧
    halt ∉ s.code ∧
      (∀ (v : Viewpoint) (source : Stepper), ∃ p : Pass Stepper, s.Reaches v source 1 p ∧
        p.stack.values.head? = s.constants[0]?) ∧
      s.code[1]?.any takesCarIndex = true ∧
      (s.shiftCarIndices 2.0).constants[0]? ≠ s.constants[0]?.map (· + 2.0) := by
  let s : Script := ⟨[constants 1, queryAt (.car (.reading .speed))], [1.0], ⟨[], 1⟩, 0.0, 1,
    Nat.le_refl 1, rfl⟩
  exact ⟨s, rfl, by decide, fun v source => ⟨_, rfl, rfl⟩, rfl, by decide⟩

end CabScript
