import CabScript.Proofs.Code
import CabScript.Script.Basic
import Mathlib.Data.Nat.Find

/-!
# Which scripts are admitted

The check walks over a list of instructions and counts. Here its verdict is read off the sums of
the effects alone: the first address that asks for more constants than remain, or for more values
than there are, is the one that is blamed; if there is none, what counts is the height at the end.

## Main definitions

* `PoolShort`, `StackShort`: the two faults that the check looks for at an address.
* `Budget.spendAll`: the counts after a list of instructions.
* `Tallies`: the counts are the sums of the effects.

## Main statements

* `spendAll_take_of_sound`: as long as there is no fault, the check goes on.
* `ofCode_verdict`: the verdict on every list of instructions.
-/

namespace CabScript

open Instruction

/-- The instruction at an address asks for more constants than those before it leave. -/
def PoolShort (poolSize : Nat) (code : List Instruction) (address : Nat) : Prop :=
  ∃ i ∈ code[address]?, poolSize - totalPoolUse (code.take address) < i.poolUse

/-- The instruction at an address asks for more values than those before it leave. -/
def StackShort (code : List Instruction) (address : Nat) : Prop :=
  ∃ i ∈ code[address]?, height (code.take address) < i.pops

instance (poolSize : Nat) (code : List Instruction) (address : Nat) :
    Decidable (PoolShort poolSize code address) :=
  inferInstanceAs (Decidable (∃ i ∈ code[address]?, _))

instance (code : List Instruction) (address : Nat) : Decidable (StackShort code address) :=
  inferInstanceAs (Decidable (∃ i ∈ code[address]?, _))

/-- The addresses at which the check finds a fault. -/
def faults (poolSize : Nat) (code : List Instruction) : Set Nat :=
  {address | PoolShort poolSize code address ∨ StackShort code address}

instance (poolSize : Nat) (code : List Instruction) (address : Nat) :
    Decidable (address ∈ faults poolSize code) :=
  inferInstanceAs (Decidable (PoolShort poolSize code address ∨ StackShort code address))

namespace Budget

/-! ## The walk as a fold -/

/-- The counts after instructions of which the first is at `address`. -/
def spendAll (address : Nat) : List Instruction → Budget → Except Error Budget
  | [], b => .ok b
  | i :: rest, b =>
    match b.spend address i with
    | .ok b => spendAll (address + 1) rest b
    | .error e => .error e

/-- The walk counts over the part that runs, and closes the count at its end. -/
theorem walk_eq (address : Nat) (code : List Instruction) (b : Budget) :
    walk address code b =
      match spendAll address (live code) b with
      | .ok b => b.close (address + (live code).length)
      | .error e => .error e := by
  fun_induction walk address code b with
  | case1 => rfl
  | case2 => simp [spendAll]
  | case3 address i rest b hi b' h ih =>
    rw [live_cons hi, spendAll, h, ih, List.length_cons, Nat.add_right_comm, Nat.add_assoc]
  | case4 address i rest b hi e h =>
    rw [live_cons hi, spendAll, h]

theorem spendAll_append (address : Nat) (l m : List Instruction) (b : Budget) :
    spendAll address (l ++ m) b =
      match spendAll address l b with
      | .ok b => spendAll (address + l.length) m b
      | .error e => .error e := by
  fun_induction spendAll address l b with
  | case1 => rfl
  | case2 address i rest b b' h ih =>
    rw [List.cons_append, spendAll, h]
    simp only
    rw [ih, List.length_cons, Nat.add_right_comm, Nat.add_assoc]
  | case3 address i rest b e h =>
    rw [List.cons_append, spendAll, h]

/-- What is counted over two lists is counted over the first one before. -/
theorem exists_spendAll_of_append {address : Nat} {l m : List Instruction} {b b' : Budget}
    (spent : spendAll address (l ++ m) b = .ok b') :
    ∃ mid, spendAll address l b = .ok mid ∧ spendAll (address + l.length) m mid = .ok b' := by
  rw [spendAll_append] at spent
  split at spent
  · exact ⟨_, ‹_›, spent⟩
  · cases spent

/-- The check goes on behind instructions that it has counted. -/
theorem walk_append {l : List Instruction} (noHalt : halt ∉ l) (address : Nat)
    (m : List Instruction) (b : Budget) :
    walk address (l ++ m) b =
      match spendAll address l b with
      | .ok b => walk (address + l.length) m b
      | .error e => .error e := by
  rw [walk_eq, live_append noHalt, spendAll_append]
  cases spendAll address l b with
  | error e => rfl
  | ok mid =>
    simp only
    rw [walk_eq, List.length_append, Nat.add_assoc]

/-! ## Single instructions -/

/-- The counts after an instruction, whatever the limits. -/
def after (b : Budget) (i : Instruction) : Budget where
  depth := b.depth - i.pops + i.pushes
  unread := b.unread - i.poolUse
  deepest := max b.deepest (b.depth - i.pops + i.pushes)

theorem spend_eq_ok_iff {b b' : Budget} {address : Nat} {i : Instruction} :
    b.spend address i = .ok b' ↔ i.poolUse ≤ b.unread ∧ i.pops ≤ b.depth ∧
      (b.after i).depth < depthLimit ∧ b' = b.after i := by
  unfold spend
  rcases Nat.lt_or_ge b.unread i.poolUse with pool | pool
  · simp [pool, Nat.not_le.mpr pool]
  rcases Nat.lt_or_ge b.depth i.pops with stack | stack
  · simp [Nat.not_lt.mpr pool, stack, Nat.not_le.mpr stack]
  rcases Nat.lt_or_ge (b.depth - i.pops + i.pushes) depthLimit with limit | limit
  · simp [pool, stack, limit, Nat.not_lt.mpr pool, Nat.not_lt.mpr stack, Nat.not_le.mpr limit,
      after, eq_comm]
  · simp [limit, Nat.not_lt.mpr pool, Nat.not_lt.mpr stack, Nat.not_lt.mpr limit, after]

/-- A pool that runs out is blamed first. -/
theorem spend_of_poolShort {b : Budget} {i : Instruction} (h : b.unread < i.poolUse)
    (address : Nat) :
    b.spend address i = .error ⟨.poolMismatch, some address, "constant pool exhausted"⟩ := by
  simp [spend, h]

/-- Values that are missing are blamed next. -/
theorem spend_of_stackShort {b : Budget} {i : Instruction} (pool : i.poolUse ≤ b.unread)
    (h : b.depth < i.pops) (address : Nat) :
    b.spend address i = .error ⟨.stackUnderflow, some address, ""⟩ := by
  simp [spend, h, Nat.not_lt.mpr pool]

end Budget

/-! ## The counts are sums -/

/-- The counts after a list of instructions that started with an empty stack and a pool of
`poolSize` constants. -/
structure Tallies (poolSize : Nat) (code : List Instruction) (b : Budget) : Prop where
  depth : (b.depth : Int) = height code
  unread : b.unread + totalPoolUse code = poolSize
  deepest : IsGreatest (heights code) b.deepest

/-- Before the first instruction nothing is counted yet. -/
theorem Tallies.start (poolSize : Nat) : Tallies poolSize [] ⟨0, poolSize, 0⟩ where
  depth := rfl
  unread := rfl
  deepest := by simp

/-- One instruction that finds what it needs keeps the counts right. -/
theorem Tallies.after {poolSize : Nat} {code : List Instruction} {b : Budget}
    (h : Tallies poolSize code b) {i : Instruction} (pool : i.poolUse ≤ b.unread)
    (stack : i.pops ≤ b.depth) : Tallies poolSize (code ++ [i]) (b.after i) := by
  have depth : ((b.after i).depth : Int) = height (code ++ [i]) := by
    have := h.depth
    simp only [Budget.after, height_append, height_cons, height_nil]
    omega
  refine ⟨depth, ?_, ?_⟩
  · have := h.unread
    simp only [Budget.after, totalPoolUse_append, totalPoolUse_cons, totalPoolUse_nil]
    omega
  · have deepest : ((b.after i).deepest : Int) = max ((b.after i).depth : Int) b.deepest := by
      simp only [Budget.after]
      omega
    rw [heights_concat, ← depth, deepest]
    exact h.deepest.insert _

theorem Tallies.spendAll {poolSize : Nat} {l m : List Instruction} {b b' : Budget}
    (h : Tallies poolSize l b) {address : Nat} (spent : Budget.spendAll address m b = .ok b') :
    Tallies poolSize (l ++ m) b' := by
  induction m generalizing l b address with
  | nil =>
    rw [Budget.spendAll] at spent
    cases spent
    simpa using h
  | cons i rest ih =>
    rw [Budget.spendAll] at spent
    split at spent
    · rename_i next step
      obtain ⟨pool, stack, -, rfl⟩ := Budget.spend_eq_ok_iff.mp step
      simpa using ih (h.after pool stack) spent
    · cases spent

/-! ## Before the first fault -/

section FirstFault

variable {poolSize : Nat} {code : List Instruction}

/-- Where the counts are right and there is no fault, the next instruction finds what it needs. -/
theorem Tallies.spend_of_sound {address : Nat} {b : Budget} {i : Instruction}
    (h : Tallies poolSize (code.take address) b) (hi : code[address]? = some i)
    (small : code.length + poolSize < Budget.depthLimit)
    (sound : address ∉ faults poolSize code) :
    b.spend address i = .ok (b.after i) := by
  have pool : i.poolUse ≤ b.unread := by
    have := h.unread
    refine Nat.not_lt.mp fun short => sound (.inl ⟨i, hi, ?_⟩)
    omega
  have stack : i.pops ≤ b.depth := by
    have := h.depth
    refine Nat.not_lt.mp fun short => sound (.inr ⟨i, hi, ?_⟩)
    omega
  have next := h.after pool stack
  have limit : (b.after i).depth < Budget.depthLimit := by
    have bound := height_le (code.take address ++ [i])
    rw [← next.depth, List.length_append, List.length_take] at bound
    have := next.unread
    have := (List.getElem?_eq_some_iff.mp hi).1
    simp only [List.length_singleton] at bound
    omega
  exact Budget.spend_eq_ok_iff.mpr ⟨pool, stack, limit, rfl⟩

/-- **No check fails before the first fault.** The bound on the depth is never reached: a stack
gets no deeper than there are constants taken and instructions walked. -/
theorem spendAll_take_of_sound (small : code.length + poolSize < Budget.depthLimit) {k : Nat}
    (sound : ∀ a < k, a ∉ faults poolSize code) :
    ∃ b, Budget.spendAll 0 (code.take k) ⟨0, poolSize, 0⟩ = .ok b ∧
      Tallies poolSize (code.take k) b := by
  induction k with
  | zero => exact ⟨_, rfl, .start poolSize⟩
  | succ k ih =>
    obtain ⟨b, spent, tallies⟩ := ih fun a ha => sound a (Nat.lt_succ_of_lt ha)
    rcases Nat.lt_or_ge k code.length with hk | hk
    · have hi : code[k]? = some code[k] := List.getElem?_eq_getElem hk
      have step := tallies.spend_of_sound hi small (sound k (Nat.lt_succ_self k))
      obtain ⟨pool, stack, -, -⟩ := Budget.spend_eq_ok_iff.mp step
      rw [List.take_succ_eq_append_getElem hk, Budget.spendAll_append, spent]
      simp only [List.length_take_of_le hk.le, Nat.zero_add, Budget.spendAll]
      rw [step]
      exact ⟨_, rfl, tallies.after pool stack⟩
    · rw [List.take_of_length_le hk] at spent tallies
      rw [List.take_of_length_le (Nat.le_succ_of_le hk)]
      exact ⟨b, spent, tallies⟩

/-- The check fails at the first fault as the instruction there fails. -/
theorem spendAll_of_first_fault (small : code.length + poolSize < Budget.depthLimit)
    {address : Nat} (sound : ∀ a < address, a ∉ faults poolSize code) {i : Instruction}
    (hi : code[address]? = some i) {e : Error}
    (fails : ∀ b, Tallies poolSize (code.take address) b → b.spend address i = .error e) :
    Budget.spendAll 0 code ⟨0, poolSize, 0⟩ = .error e := by
  obtain ⟨b, spent, tallies⟩ := spendAll_take_of_sound small sound
  obtain ⟨bound, rfl⟩ := List.getElem?_eq_some_iff.mp hi
  conv_lhs => rw [← List.take_append_drop address code, List.drop_eq_getElem_cons bound]
  rw [Budget.spendAll_append, spent]
  simp only [List.length_take_of_le bound.le, Nat.zero_add, Budget.spendAll]
  rw [fails b tallies]

end FirstFault

/-! ## The required depth -/

theorem requiredDepth_eq (code : List Instruction) (poolSize : Nat) :
    requiredDepth code poolSize =
      match Budget.spendAll 0 (live code) ⟨0, poolSize, 0⟩ with
      | .ok b => b.close (live code).length
      | .error e => .error e := by
  rw [requiredDepth, Budget.walk_eq, Nat.zero_add]

/-- A list of instructions is admitted if the walk gets to the end of the part that runs and finds
a single value there. -/
theorem requiredDepth_eq_ok_iff {code : List Instruction} {poolSize depth : Nat} :
    requiredDepth code poolSize = .ok depth ↔
      ∃ b, Budget.spendAll 0 (live code) ⟨0, poolSize, 0⟩ = .ok b ∧ b.depth = 1 ∧
        b.deepest = depth := by
  rw [requiredDepth_eq]
  cases Budget.spendAll 0 (live code) ⟨0, poolSize, 0⟩ with
  | error e => simp
  | ok b =>
    by_cases h : b.depth = 1 <;> simp [Budget.close, h]

section Verdict

variable {code : List Instruction} {poolSize : Nat}

/-- What holds of the size of a list holds of the part that runs. -/
theorem live_small (small : code.length + poolSize < Budget.depthLimit) :
    (live code).length + poolSize < Budget.depthLimit := by
  have := length_live_le code
  omega

/-- A pool that is too short at the first fault is what the check reports. -/
theorem requiredDepth_of_poolShort (small : code.length + poolSize < Budget.depthLimit)
    {address : Nat} (sound : ∀ a < address, a ∉ faults poolSize (live code))
    (short : PoolShort poolSize (live code) address) :
    requiredDepth code poolSize =
      .error ⟨.poolMismatch, some address, "constant pool exhausted"⟩ := by
  obtain ⟨i, hi, few⟩ := short
  rw [requiredDepth_eq, spendAll_of_first_fault (live_small small) sound hi fun b tallies => ?_]
  refine Budget.spend_of_poolShort ?_ address
  have := tallies.unread
  omega

/-- Otherwise the check reports that values are missing. -/
theorem requiredDepth_of_stackShort (small : code.length + poolSize < Budget.depthLimit)
    {address : Nat} (sound : ∀ a < address, a ∉ faults poolSize (live code))
    (pool : ¬ PoolShort poolSize (live code) address) (short : StackShort (live code) address) :
    requiredDepth code poolSize = .error ⟨.stackUnderflow, some address, ""⟩ := by
  obtain ⟨i, hi, few⟩ := short
  rw [requiredDepth_eq, spendAll_of_first_fault (live_small small) sound hi fun b tallies => ?_]
  refine Budget.spend_of_stackShort (Nat.not_lt.mp fun few => pool ⟨i, hi, ?_⟩) ?_ address
  · have := tallies.unread
    omega
  · have := tallies.depth
    omega

/-- Without a fault the height at the end decides, and the depth is the greatest height. -/
theorem requiredDepth_of_sound (small : code.length + poolSize < Budget.depthLimit)
    (sound : ∀ a, a ∉ faults poolSize (live code)) :
    ∃ depth : Nat, IsGreatest (heights (live code)) depth ∧
      requiredDepth code poolSize =
        if height (live code) = 1 then .ok depth
        else
          .error ⟨.unbalancedStack, some (live code).length, "exactly one value must remain"⟩ := by
  obtain ⟨b, spent, tallies⟩ :=
    spendAll_take_of_sound (k := (live code).length) (live_small small) fun a _ => sound a
  rw [List.take_length] at spent tallies
  refine ⟨b.deepest, tallies.deepest, ?_⟩
  have single : height (live code) = 1 ↔ b.depth = 1 := by
    have := tallies.depth
    omega
  simp only [requiredDepth_eq, spent, Budget.close, single]

/-- The first fault, if there is one. -/
theorem exists_first_fault_or_sound (poolSize : Nat) (code : List Instruction) :
    (∃ a, IsLeast (faults poolSize code) a) ∨ ∀ a, a ∉ faults poolSize code := by
  classical
  by_cases h : ∃ a, a ∈ faults poolSize code
  · exact .inl ⟨Nat.find h, Nat.find_spec h, fun a ha => Nat.find_min' h ha⟩
  · exact .inr fun a ha => h ⟨a, ha⟩

/-- The bound on the depth is never what the check reports. -/
theorem requiredDepth_ne_stackOverflow (small : code.length + poolSize < Budget.depthLimit)
    {e : Error} (h : requiredDepth code poolSize = .error e) : e.fault ≠ .stackOverflow := by
  rcases exists_first_fault_or_sound poolSize (live code) with ⟨a, fault, least⟩ | sound
  · have before : ∀ b < a, b ∉ faults poolSize (live code) :=
      fun b hb fault => absurd (least fault) (Nat.not_le.mpr hb)
    by_cases pool : PoolShort poolSize (live code) a
    · rw [requiredDepth_of_poolShort small before pool] at h
      cases h
      simp
    · rw [requiredDepth_of_stackShort small before pool (fault.resolve_left pool)] at h
      cases h
      simp
  · obtain ⟨depth, -, verdict⟩ := requiredDepth_of_sound small sound
    rw [verdict] at h
    split at h <;> cases h
    simp

end Verdict

/-! ## Making a script -/

namespace Script

variable {code : List Instruction} {constants : List Float} {capacity : Nat} {s : Script}

/-- A script as it is right after it has been made. -/
structure New (code : List Instruction) (constants : List Float) (stack : Stack) (s : Script) :
    Prop where
  code : s.code = code
  constants : s.constants = constants
  stack : s.stack = stack
  lastResult : s.lastResult = 0.0

/-- A script is put together as it was asked for, if there is memory for its stack. -/
theorem assemble_of_granted {stack : Stack} (granted : Stack.ofCapacity? capacity = some stack)
    (admitted : ∃ depth ≤ capacity, requiredDepth code constants.length = .ok depth) :
    ∃ s, assemble code constants capacity admitted = .ok s ∧ s.New code constants stack := by
  unfold assemble
  split
  · rename_i stack' granted'
    obtain rfl : stack = stack' := Option.some.inj (granted.symm.trans granted')
    exact ⟨_, rfl, rfl, rfl, rfl, rfl⟩
  · rename_i refused
    rw [granted] at refused
    cases refused

/-- Without the memory it is not. -/
theorem assemble_of_refused (refused : Stack.ofCapacity? capacity = none)
    (admitted : ∃ depth ≤ capacity, requiredDepth code constants.length = .ok depth) :
    assemble code constants capacity admitted =
      .error ⟨.stackOverflow, none, "capacity cannot be allocated"⟩ := by
  unfold assemble
  split
  · rename_i granted
    rw [refused] at granted
    cases granted
  · rfl

theorem new_of_assemble
    {admitted : ∃ depth ≤ capacity, requiredDepth code constants.length = .ok depth}
    (made : assemble code constants capacity admitted = .ok s) :
    s.New code constants ⟨[], capacity⟩ := by
  cases granted : Stack.ofCapacity? capacity with
  | none =>
    rw [assemble_of_refused granted] at made
    cases made
  | some stack =>
    obtain ⟨t, made', new⟩ := assemble_of_granted granted admitted
    obtain rfl : t = s := Except.ok.inj (made'.symm.trans made)
    rwa [← Stack.eq_of_ofCapacity? granted]

/-- A list of instructions that is not admitted makes no script. -/
theorem ofCode_of_error {e : Error} (h : requiredDepth code constants.length = .error e) :
    ofCode code constants = .error e := by
  unfold ofCode
  split <;> rename_i h' <;> rw [h] at h' <;> cases h'
  rfl

/-- One that is admitted asks for a stack of the required depth. -/
theorem ofCode_of_ok {depth : Nat} (h : requiredDepth code constants.length = .ok depth) :
    ofCode code constants = assemble code constants depth ⟨depth, Nat.le_refl depth, h⟩ := by
  unfold ofCode
  split
  · rename_i depth' h'
    obtain rfl : depth = depth' := Except.ok.inj (h.symm.trans h')
    rfl
  · rename_i h'
    rw [h] at h'
    cases h'

/-- So the stack of a script holds just the required depth, -/
theorem new_of_ofCode (made : ofCode code constants = .ok s) :
    ∃ depth, requiredDepth code constants.length = .ok depth ∧
      s.New code constants ⟨[], depth⟩ := by
  cases h : requiredDepth code constants.length with
  | error e =>
    rw [ofCode_of_error h] at made
    cases made
  | ok depth =>
    rw [ofCode_of_ok h] at made
    exact ⟨depth, rfl, new_of_assemble made⟩

/-- or the capacity that was asked for. -/
theorem new_of_ofCodeWithCapacity (made : ofCodeWithCapacity code constants capacity = .ok s) :
    s.New code constants ⟨[], capacity⟩ := by
  unfold ofCodeWithCapacity at made
  split at made
  · split at made
    · exact new_of_assemble made
    · cases made
  · cases made

/-- Code that is not admitted makes no script of any capacity. -/
theorem ofCodeWithCapacity_of_error {e : Error}
    (h : requiredDepth code constants.length = .error e) (capacity : Nat) :
    ofCodeWithCapacity code constants capacity = .error e := by
  unfold ofCodeWithCapacity
  split <;> rename_i h' <;> rw [h] at h' <;> cases h'
  rfl

/-- A capacity that is less than the required depth is refused, -/
theorem ofCodeWithCapacity_of_lt {depth : Nat}
    (h : requiredDepth code constants.length = .ok depth) (short : capacity < depth) :
    ofCodeWithCapacity code constants capacity =
      .error ⟨.stackOverflow, none, "capacity is below the required depth"⟩ := by
  unfold ofCodeWithCapacity
  split
  · rename_i depth' h'
    obtain rfl : depth = depth' := Except.ok.inj (h.symm.trans h')
    exact dif_neg (Nat.not_le.mpr short)
  · rename_i h'
    rw [h] at h'
    cases h'

/-- and for any other a stack of this capacity is asked for. -/
theorem ofCodeWithCapacity_of_le {depth : Nat}
    (h : requiredDepth code constants.length = .ok depth) (fits : depth ≤ capacity) :
    ofCodeWithCapacity code constants capacity =
      assemble code constants capacity ⟨depth, fits, h⟩ := by
  unfold ofCodeWithCapacity
  split
  · rename_i depth' h'
    obtain rfl : depth = depth' := Except.ok.inj (h.symm.trans h')
    exact dif_pos fits
  · rename_i h'
    rw [h] at h'
    cases h'

theorem ofStream_of_decode {stream : List UInt16} (decoded : decode stream = some code) :
    ofStream stream constants = ofCode code constants := by
  rw [ofStream, decoded]

end Script

/-- **The verdict on a list of instructions.** Nothing after the first `halt` is looked at.

* At the first address with a fault, a pool that is too short is blamed, and otherwise a stack that
  is. In particular an operand too great for the pool is blamed on the pool even where the number of
  constants taken would not fit 64 bits.
* Without a fault the height at the end has to be `1`.
* Then a script is made whose stack holds the greatest height on the way, if memory is granted.

The bound of 64 bits on the depth is never met. -/
theorem ofCode_verdict (code : List Instruction) (constants : List Float)
    (small : code.length + constants.length < 2 ^ 64) :
    (∀ a, IsLeast (faults constants.length (live code)) a →
      (PoolShort constants.length (live code) a →
        Script.ofCode code constants =
          .error ⟨.poolMismatch, some a, "constant pool exhausted"⟩) ∧
      (¬ PoolShort constants.length (live code) a →
        Script.ofCode code constants = .error ⟨.stackUnderflow, some a, ""⟩)) ∧
    (∀ a i, (live code)[a]? = some i → (∀ b < a, b ∉ faults constants.length (live code)) →
      2 ^ 64 ≤ totalPoolUse ((live code).take a) + i.poolUse →
        Script.ofCode code constants =
          .error ⟨.poolMismatch, some a, "constant pool exhausted"⟩) ∧
    ((∀ a, a ∉ faults constants.length (live code)) → height (live code) ≠ 1 →
      Script.ofCode code constants =
        .error ⟨.unbalancedStack, some (code.idxOf .halt), "exactly one value must remain"⟩) ∧
    ((∀ a, a ∉ faults constants.length (live code)) → height (live code) = 1 →
      ∃ depth : Nat, IsGreatest (heights (live code)) depth ∧
        (∀ stack, Stack.ofCapacity? depth = some stack →
          ∃ s, Script.ofCode code constants = .ok s ∧ s.New code constants stack) ∧
        (Stack.ofCapacity? depth = none →
          Script.ofCode code constants =
            .error ⟨.stackOverflow, none, "capacity cannot be allocated"⟩)) ∧
    (∀ e, requiredDepth code constants.length = .error e → e.fault ≠ .stackOverflow) := by
  have blamed {a : Nat} (before : ∀ b < a, b ∉ faults constants.length (live code))
      (pool : PoolShort constants.length (live code) a) :=
    Script.ofCode_of_error (requiredDepth_of_poolShort small before pool)
  refine ⟨?_, ?_, ?_, ?_, fun e => requiredDepth_ne_stackOverflow small⟩
  · intro a ⟨fault, least⟩
    have before : ∀ b < a, b ∉ faults constants.length (live code) :=
      fun b hb fault => absurd (least fault) (Nat.not_le.mpr hb)
    refine ⟨blamed before, fun pool => Script.ofCode_of_error ?_⟩
    exact requiredDepth_of_stackShort small before pool (fault.resolve_left pool)
  · intro a i hi before overflow
    obtain ⟨b, -, tallies⟩ := spendAll_take_of_sound (live_small small) before
    have := tallies.unread
    exact blamed before ⟨i, hi, by omega⟩
  · intro sound unbalanced
    obtain ⟨depth, -, verdict⟩ := requiredDepth_of_sound small sound
    rw [if_neg unbalanced, length_live] at verdict
    exact Script.ofCode_of_error verdict
  · intro sound balanced
    obtain ⟨depth, greatest, verdict⟩ := requiredDepth_of_sound small sound
    rw [if_pos balanced] at verdict
    refine ⟨depth, greatest, ?_⟩
    rw [Script.ofCode_of_ok verdict]
    exact ⟨fun stack granted => Script.assemble_of_granted granted _,
      fun refused => Script.assemble_of_refused refused _⟩

/-- The greatest count there is, behind a constant: the sum of both exceeds 64 bits. -/
theorem ofCode_verdict_greatest_count :
    [Instruction.constant, .constants (2 ^ 64 - 1)].length + [(1.0 : Float)].length < 2 ^ 64 ∧
      Script.ofCode [.constant, .constants (2 ^ 64 - 1)] [1.0] =
        .error ⟨.poolMismatch, some 1, "constant pool exhausted"⟩ := by
  have small : [Instruction.constant, .constants (2 ^ 64 - 1)].length + [(1.0 : Float)].length <
      2 ^ 64 := by decide
  refine ⟨small, (ofCode_verdict _ _ small).2.1 1 (.constants (2 ^ 64 - 1)) rfl ?_ (by decide)⟩
  decide

end CabScript
