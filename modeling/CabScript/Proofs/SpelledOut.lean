import CabScript.Proofs.Replacement

/-!
# Blocks and single constants

A block of constants pushes what as many single constants push, in the same order, so these can
stand in its place. Code in which every block is spelled out, as one constant after the other, is
therefore checked, listed and run in the same way; only what stands behind a block has other
addresses.

## Main definitions

* `Instruction.singly`, `spelledOut`: an instruction and code without blocks.
* `spelledAddress`: where an instruction stands in the code that is spelled out.
* `Script.spelledOut`: a script whose code is spelled out.

## Main statements

* `costsAs_singly`, `runsAs_singly`: the constants of a block can stand in its place.
* `requiredDepth_spelledOut`: the check counts the same.
* `Script.observation_spelledOut`: an evaluation ends the same, but for the address of its error.
-/

namespace CabScript

open Instruction

/-- The instruction with its constants one by one. -/
def Instruction.singly : Instruction → List Instruction
  | constants count => List.replicate count constant
  | i => [i]

/-- Code with all constants one by one. -/
def spelledOut (code : List Instruction) : List Instruction :=
  code.flatMap singly

/-- Where the instruction at an address stands once the code is spelled out. -/
def spelledAddress (code : List Instruction) (address : Nat) : Nat :=
  (spelledOut (code.take address)).length

/-! ## The code -/

section Code

variable {i : Instruction} {code : List Instruction}

@[simp] theorem spelledOut_nil : spelledOut [] = [] := rfl

@[simp] theorem spelledOut_cons (i : Instruction) (rest : List Instruction) :
    spelledOut (i :: rest) = i.singly ++ spelledOut rest :=
  List.flatMap_cons

/-- An instruction other than a block is spelled out already. -/
theorem singly_of_ne (single : ∀ count, i ≠ constants count) : i.singly = [i] := by
  cases i with
  | constants count => exact absurd rfl (single count)
  | _ => rfl

theorem halt_notMem_singly (h : i ≠ halt) : halt ∉ i.singly := by
  cases i with
  | constants count =>
    intro mem
    cases (List.mem_replicate.mp mem).2
  | halt => exact absurd rfl h
  | _ => simp [singly]

/-- What runs is spelled out as a whole. -/
theorem live_spelledOut (code : List Instruction) :
    live (spelledOut code) = spelledOut (live code) := by
  induction code with
  | nil => rfl
  | cons i rest ih =>
    by_cases hi : i = halt
    · subst hi
      rw [live_halt, spelledOut_cons]
      exact live_halt _
    · rw [live_cons hi, spelledOut_cons, spelledOut_cons, live_append (halt_notMem_singly hi), ih]

theorem totalPoolUse_replicate (count : Nat) :
    totalPoolUse (List.replicate count constant) = count := by
  induction count with
  | zero => rfl
  | succ count ih => rw [List.replicate_succ, totalPoolUse_cons, ih, poolUse, Nat.add_comm]

theorem totalPoolUse_singly (i : Instruction) : totalPoolUse i.singly = i.poolUse := by
  cases i with
  | constants count => exact totalPoolUse_replicate count
  | _ => rfl

@[simp] theorem totalPoolUse_spelledOut (code : List Instruction) :
    totalPoolUse (spelledOut code) = totalPoolUse code := by
  induction code with
  | nil => rfl
  | cons i rest ih =>
    rw [spelledOut_cons, totalPoolUse_append, totalPoolUse_singly, ih, totalPoolUse_cons]

theorem spelledOut_eq_flatten (code : List Instruction) :
    spelledOut code = (code.map singly).flatten :=
  List.flatMap_def

theorem spelledAddress_eq (code : List Instruction) :
    spelledAddress code = replacedAddress (code.map singly) := by
  funext address
  rw [spelledAddress, replacedAddress, spelledOut_eq_flatten, List.map_take]

end Code

/-! ## The check -/

namespace Budget

variable {count : Nat} {b : Budget}

/-- One constant costs one constant and one place. -/
theorem spend_constant (pool : 0 < b.unread) (limit : b.depth + 1 < depthLimit) (address : Nat) :
    b.spend address constant = .ok ⟨b.depth + 1, b.unread - 1, max b.deepest (b.depth + 1)⟩ :=
  spend_eq_ok_iff.mpr ⟨pool, Nat.zero_le _, limit, rfl⟩

/-- Constants one by one cost what the block costs, -/
theorem spendAll_replicate (address : Nat) (pool : count ≤ b.unread)
    (limit : b.depth + count < depthLimit) (deep : b.depth ≤ b.deepest) :
    spendAll address (List.replicate count constant) b =
      .ok ⟨b.depth + count, b.unread - count, max b.deepest (b.depth + count)⟩ := by
  induction count generalizing address b with
  | zero => simp [spendAll, Nat.max_eq_left deep]
  | succ count ih =>
    rw [List.replicate_succ, spendAll, spend_constant (by omega) (by omega)]
    simp only
    rw [ih (address + 1) (by simp only; omega) (by simp only; omega) (Nat.le_max_right ..)]
    simp only [Except.ok.injEq, mk.injEq]
    omega

/-- and run out where the pool does. -/
theorem spendAll_replicate_of_short (address : Nat) (short : b.unread < count)
    (limit : b.depth + b.unread < depthLimit) :
    spendAll address (List.replicate count constant) b =
      .error ⟨.poolMismatch, some (address + b.unread), "constant pool exhausted"⟩ := by
  induction count generalizing address b with
  | zero => exact absurd short (Nat.not_lt_zero _)
  | succ count ih =>
    rw [List.replicate_succ, spendAll]
    rcases Nat.eq_zero_or_pos b.unread with none | some
    · have first : b.unread < poolUse constant := none ▸ Nat.one_pos
      rw [spend_of_poolShort first, none]
      rfl
    · rw [spend_constant some (by omega)]
      simp only
      rw [ih (address + 1) (by simp only; omega) (by simp only; omega)]
      simp only [Except.error.injEq, Error.mk.injEq, Option.some.injEq, true_and, and_true]
      omega

end Budget

/-- **The constants of a block cost what the block costs.** -/
theorem costsAs_singly (i : Instruction) : i.CostsAs i.singly := by
  by_cases block : ∃ count, i = constants count
  · obtain ⟨count, rfl⟩ := block
    refine ⟨by simp, halt_notMem_singly, by simp [isFatal], fun deep spent address' => ?_,
      fun deep small refused address' => ?_⟩
    · obtain ⟨pool, -, limit, rfl⟩ := Budget.spend_eq_ok_iff.mp spent
      exact Budget.spendAll_replicate address' pool limit deep
    · -- a block is refused for nothing but the pool
      rename_i b e address
      rcases Nat.lt_or_ge b.unread count with short | held
      · rw [Budget.spend_of_poolShort short] at refused
        cases refused
        exact ⟨_, Budget.spendAll_replicate_of_short address' short (by omega), rfl⟩
      · have passed : b.spend address (constants count) = .ok (b.after (constants count)) := by
          refine Budget.spend_eq_ok_iff.mpr ⟨held, Nat.zero_le _, ?_, rfl⟩
          simp only [Budget.after, pops, pushes]
          omega
        rw [passed] at refused
        cases refused
  · rw [singly_of_ne (by simpa using block)]
    exact .self i

theorem costsAs_singly_all (code : List Instruction) :
    List.Forall₂ CostsAs code (code.map singly) :=
  List.forall₂_map_right_iff.mpr (List.forall₂_same.mpr fun i _ => costsAs_singly i)

/-- **The check counts the same** over code that is spelled out. -/
theorem requiredDepth_spelledOut {code : List Instruction} {poolSize depth : Nat}
    (required : requiredDepth code poolSize = .ok depth) :
    requiredDepth (spelledOut code) poolSize = .ok depth := by
  rw [spelledOut_eq_flatten]
  exact requiredDepth_flatten (costsAs_singly_all code) required

/-! ## Runs -/

section Run

variable {γ : Type} [WordSource γ] {setting : Setting}

/-- Constants are pushed one by one as they are in a block. -/
theorem run_replicate {count space : Nat} {unread : List Float} (held : count ≤ unread.length)
    (room : count ≤ space) (values : List Float) (source : γ) (address : Nat) :
    run setting address (List.replicate count constant) ⟨⟨values, space⟩, unread, source⟩ =
      ⟨none, ⟨⟨(unread.take count).reverse ++ values, space - count⟩, unread.drop count,
        source⟩⟩ := by
  induction count generalizing values space unread address with
  | zero => rfl
  | succ count ih =>
    obtain ⟨x, unread, rfl⟩ := List.exists_cons_of_length_pos (Nat.zero_lt_of_lt held)
    obtain ⟨space, rfl⟩ := Nat.exists_eq_add_one.mpr (Nat.zero_lt_of_lt room)
    have first : constant.step setting address ⟨⟨values, space + 1⟩, x :: unread, source⟩ =
        .ok ⟨⟨x :: values, space⟩, unread, source⟩ := by
      show Pass.pushConstants ⟨⟨values, space + 1⟩, x :: unread, source⟩ 1 = _
      refine Pass.pushConstants_eq_ok_iff.mpr ⟨?_, ?_, rfl⟩
      · exact Nat.le_add_left ..
      · exact Nat.le_add_left ..
    rw [List.replicate_succ, run_cons (by simp), first]
    simp only
    rw [ih (Nat.le_of_succ_le_succ held) (Nat.le_of_succ_le_succ room)]
    simp [Nat.add_sub_add_right]

/-- **The constants of a block do what the block does.** -/
theorem runsAs_singly (setting : Setting) (i : Instruction) : i.RunsAs γ setting i.singly := by
  by_cases block : ∃ count, i = constants count
  · obtain ⟨count, rfl⟩ := block
    intro address p p' stepped address'
    obtain ⟨held, room, rfl⟩ := Pass.pushConstants_eq_ok_iff.mp stepped
    exact run_replicate held room p.stack.values p.source address'
  · rw [singly_of_ne (by simpa using block)]
    exact RunsAs.self setting i

theorem runsAs_singly_all (setting : Setting) (code : List Instruction) :
    List.Forall₂ (RunsAs γ setting) code (code.map singly) :=
  List.forall₂_map_right_iff.mpr (List.forall₂_same.mpr fun i _ => runsAs_singly setting i)

end Run

namespace Script

/-- The script with its code spelled out. -/
def spelledOut (s : Script) : Script :=
  { s with
    code := CabScript.spelledOut s.code
    admitted :=
      let ⟨depth, fits, required⟩ := s.admitted
      ⟨depth, fits, requiredDepth_spelledOut required⟩ }

variable {γ : Type} [WordSource γ]

/-- **A script that is spelled out shows the same,** with errors at other addresses. -/
theorem observation_spelledOut (s : Script) (v : Viewpoint) (source : γ) :
    (s.spelledOut.evaluate v source).observation =
      (s.evaluate v source).observation.readdress (spelledAddress s.code) := by
  rw [spelledAddress_eq]
  exact observation_flatten (t := s.spelledOut) (costsAs_singly_all s.code)
    (spelledOut_eq_flatten s.code) rfl rfl (runsAs_singly_all ⟨v, s.lastResult⟩ s.code) source

end Script

end CabScript
