import CabScript.Proofs.Frame

/-!
# Fragments

A fragment is code that makes a script by itself. It works the same where it stands inside other
code: it puts what it yields by itself on top of what is there, or stops everything with its own
error.

## Main definitions

* `Fragment`, with `Fragment.depth`, `Fragment.UsesPoolUp` and `Fragment.IsFatal`.
* `Fragment.evaluate`: a fragment by itself.

## Main statements

* `Fragment.spendAll_at`: what the check counts over a fragment in its place.
* `Fragment.run_at`, `Fragment.run_at_of_isFatal`: what a fragment does there.
-/

namespace CabScript

open Instruction

/-- The run of a script as it is right after it has been made, but for the last result. -/
theorem Script.New.runFor_eq {γ : Type} [WordSource γ] {code : List Instruction}
    {constants : List Float} {capacity : Nat} {s : Script}
    (new : s.New code constants ⟨[], capacity⟩) (previous : Float) (v : Viewpoint) (source : γ) :
    (s.withLastResult previous).runFor v source =
      run ⟨v, previous⟩ 0 code ⟨⟨[], capacity⟩, constants, source⟩ := by
  show run ⟨v, previous⟩ 0 s.code ⟨s.stack.clear, s.constants, source⟩ = _
  rw [new.code, new.constants, new.stack, Stack.clear, Stack.capacity, List.length_nil,
    Nat.zero_add]

/-- Code that makes a script by itself, and that does not end what stands behind it. -/
structure Fragment where
  code : List Instruction
  pool : List Float
  /-- The script that it makes. -/
  script : Script
  made : Script.ofCode code pool = .ok script
  noHalt : halt ∉ code

namespace Fragment

/-- The depth that the fragment needs. -/
def depth (f : Fragment) : Nat :=
  f.script.stack.capacity

/-- The fragment leaves no constant behind. -/
def UsesPoolUp (f : Fragment) : Prop :=
  totalPoolUse f.code = f.pool.length

/-- No pass gets through the fragment. -/
def IsFatal (f : Fragment) : Prop :=
  ∃ i ∈ f.code, i.isFatal = true

instance (f : Fragment) : Decidable f.IsFatal :=
  inferInstanceAs (Decidable (∃ i ∈ f.code, _))

/-- The evaluation of the fragment by itself, for a given last result. -/
def evaluate {γ : Type} [WordSource γ] (f : Fragment) (previous : Float) (v : Viewpoint)
    (source : γ) : Evaluation γ :=
  (f.script.withLastResult previous).evaluate v source

/-- A constant is the least fragment. -/
def constant (x : Float) : Fragment where
  code := [.constant]
  pool := [x]
  script := ⟨[.constant], [x], ⟨[], 1⟩, 0.0, 1, Nat.le_refl 1, rfl⟩
  made := rfl
  noHalt := by decide

section Single

variable (f : Fragment)

theorem new_script : f.script.New f.code f.pool ⟨[], f.depth⟩ ∧
    requiredDepth f.code f.pool.length = .ok f.depth := by
  obtain ⟨depth, required, new⟩ := Script.new_of_ofCode f.made
  have same : f.depth = depth := by
    rw [Fragment.depth, new.stack]
    exact Nat.zero_add depth
  exact ⟨same ▸ new, same ▸ required⟩

/-! ## The check -/

/-- The check over the fragment by itself. -/
theorem exists_spendAll : ∃ b, Budget.spendAll 0 f.code ⟨0, f.pool.length, 0⟩ = .ok b ∧
    b.depth = 1 ∧ b.deepest = f.depth ∧ b.unread + totalPoolUse f.code = f.pool.length := by
  obtain ⟨b, spent, single, deepest⟩ := requiredDepth_eq_ok_iff.mp f.new_script.2
  rw [live_eq_self f.noHalt] at spent
  exact ⟨b, spent, single, deepest, ((Tallies.start f.pool.length).spendAll spent).unread⟩

theorem totalPoolUse_le : totalPoolUse f.code ≤ f.pool.length := by
  obtain ⟨b, -, -, -, unread⟩ := f.exists_spendAll
  omega

/-- **The check over the fragment in its place** counts one value more than before. -/
theorem spendAll_at {b : Budget} (pool : f.pool.length ≤ b.unread)
    (limit : b.depth + f.depth < Budget.depthLimit) (deep : b.depth ≤ b.deepest) (address : Nat) :
    Budget.spendAll address f.code b = .ok
      ⟨b.depth + 1, b.unread - totalPoolUse f.code, max b.deepest (b.depth + f.depth)⟩ := by
  obtain ⟨alone, spent, single, deepest, unread⟩ := f.exists_spendAll
  have start : (Budget.mk 0 f.pool.length 0).atop b.depth (b.unread - f.pool.length) b.deepest =
      b := by
    simp only [Budget.atop, Nat.zero_add, Nat.max_eq_left deep, Nat.add_sub_cancel' pool]
  have shifted := Budget.spendAll_atop spent (by omega : alone.deepest + b.depth < _)
    (b.unread - f.pool.length) b.deepest address
  rw [start] at shifted
  rw [shifted, Budget.atop, single, deepest, Nat.add_comm 1, Nat.add_comm f.depth]
  congr 2
  omega

theorem depth_pos : 0 < f.depth := by
  obtain ⟨b, spent, single, deepest, -⟩ := f.exists_spendAll
  have tallies := (Tallies.start f.pool.length).spendAll spent
  have reached := tallies.deepest.2 (height_mem_heights _)
  rw [← tallies.depth] at reached
  omega

/-- There is memory for the stack of a fragment. -/
theorem depth_le : f.depth ≤ Stack.greatestCapacity := by
  by_contra tooDeep
  have refused : Stack.ofCapacity? f.depth = none := if_neg tooDeep
  have made := f.made
  rw [Script.ofCode_of_ok f.new_script.2, Script.assemble_of_refused refused] at made
  cases made

/-! ## The run -/

variable {γ : Type} [WordSource γ] (previous : Float) (v : Viewpoint) (source : γ)

theorem live_script : live (f.script.withLastResult previous).code = f.code := by
  show live f.script.code = f.code
  rw [f.new_script.1.code, live_eq_self f.noHalt]

/-- A fragment that is not fatal ends with one value, by itself. -/
theorem run_alone (goesOn : ¬ f.IsFatal) :
    ∃ x, (f.evaluate previous v source).outcome = .ok x ∧
      run ⟨v, previous⟩ 0 f.code ⟨⟨[], f.depth⟩, f.pool, source⟩ =
        ⟨none, ⟨⟨[x], f.depth - 1⟩, f.pool.drop (totalPoolUse f.code),
          (f.evaluate previous v source).source⟩⟩ := by
  have goesOn : ∀ i ∈ live (f.script.withLastResult previous).code, i.isFatal = false := by
    rw [live_script]
    simpa [IsFatal] using goesOn
  obtain ⟨p, x, ran, values⟩ := Script.runFor_of_goesOn _ v source goesOn
  have capacity := Script.capacity_runFor (f.script.withLastResult previous) v source
  have outcome : (f.evaluate previous v source).outcome = .ok x := by
    rw [evaluate, Script.outcome_evaluate, ran]
    simp [Ending.result, Stack.top, values]
  have left : (f.evaluate previous v source).source = p.source := by
    rw [evaluate, Script.source_evaluate, ran]
  rw [ran] at capacity
  rw [f.new_script.1.runFor_eq] at ran
  have unread := unread_run f.noHalt (by rw [ran])
  rw [ran] at unread
  refine ⟨x, outcome, ?_⟩
  obtain ⟨⟨values', room⟩, unread', source'⟩ := p
  obtain rfl : values' = [x] := values
  obtain rfl : unread' = f.pool.drop (totalPoolUse f.code) := unread
  have room : room = f.depth - 1 := by
    have : 1 + room = f.depth := capacity
    omega
  rw [ran, left, room]

/-- A fatal fragment ends with an error, by itself. -/
theorem run_alone_of_isFatal (fatal : f.IsFatal) :
    ∃ e p, (f.evaluate previous v source).outcome = .error (.error e) ∧
      run ⟨v, previous⟩ 0 f.code ⟨⟨[], f.depth⟩, f.pool, source⟩ = ⟨some (.error e), p⟩ := by
  obtain ⟨before, i, after, split, goesOn, fatal⟩ := exists_first_fatal fatal
  obtain ⟨e, he⟩ := exists_fatalError fatal before.length
  rw [← f.live_script previous] at split
  obtain ⟨outcome, -⟩ := Script.evaluate_of_fatal _ v source split goesOn he
  obtain ⟨p, ran, -⟩ := Script.runFor_of_fatal _ v source split goesOn he
  rw [f.new_script.1.runFor_eq] at ran
  exact ⟨e, p, outcome, ran⟩

omit [WordSource γ] in
/-- A pass with room for the fragment is its first pass, put on top of what is there. -/
theorem atop_first {room : Nat} (fits : f.depth ≤ room) (base rest : List Float) :
    (Pass.mk ⟨[], f.depth⟩ f.pool source).atop base (room - f.depth) rest =
      ⟨⟨base, room⟩, f.pool ++ rest, source⟩ := by
  simp only [Pass.atop, List.nil_append, Nat.add_sub_cancel' fits]

/-- **A fragment in its place** leaves what it yields by itself on top of what is there, -/
theorem run_at (goesOn : ¬ f.IsFatal) {room : Nat} (fits : f.depth ≤ room)
    (base rest : List Float) (address : Nat) (m : List Instruction) :
    ∃ x, (f.evaluate previous v source).outcome = .ok x ∧
      run ⟨v, previous⟩ address (f.code ++ m) ⟨⟨base, room⟩, f.pool ++ rest, source⟩ =
        run ⟨v, previous⟩ (address + f.code.length) m
          ⟨⟨x :: base, room - 1⟩, f.pool.drop (totalPoolUse f.code) ++ rest,
            (f.evaluate previous v source).source⟩ := by
  obtain ⟨x, outcome, alone⟩ := f.run_alone previous v source goesOn
  refine ⟨x, outcome, ?_⟩
  have placed := run_atop_shift (by rw [alone]; simp) base (room - f.depth) rest address
  rw [atop_first f source fits, alone] at placed
  rw [run_append f.noHalt, placed]
  have := f.depth_pos
  have left : f.depth - 1 + (room - f.depth) = room - 1 := by omega
  simp only [Option.map_none, Pass.atop, List.singleton_append, left]

/-- or stops what stands behind it with its own error. -/
theorem run_at_of_isFatal (fatal : f.IsFatal) {room : Nat} (fits : f.depth ≤ room)
    (base rest : List Float) (address : Nat) (m : List Instruction) :
    ∃ e, (f.evaluate previous v source).outcome = .error (.error e) ∧
      (run ⟨v, previous⟩ address (f.code ++ m) ⟨⟨base, room⟩, f.pool ++ rest, source⟩).failure =
        some (.error (e.shift address)) := by
  obtain ⟨e, p, outcome, alone⟩ := f.run_alone_of_isFatal previous v source fatal
  refine ⟨e, outcome, ?_⟩
  have placed := run_atop_shift (by rw [alone]; simp) base (room - f.depth) rest address
  rw [atop_first f source fits, alone] at placed
  rw [run_append f.noHalt, placed]
  rfl

end Single

end Fragment

end CabScript
