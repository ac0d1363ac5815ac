import CabScript.Script.Allotment
import Mathlib.Algebra.BigOperators.Group.List.Basic
import Mathlib.Data.List.TakeWhile
import Mathlib.Order.Bounds.Basic
import Mathlib.Order.Interval.Set.Basic

/-!
# What lists of instructions add up to

There are no jumps, so what instructions do to the number of values and to the pool adds up along
the list. The theorems about admission and about runs are both stated in these sums.

## Main definitions

* `live`: the part of a list that runs.
* `height`: what instructions add to the stack in all.
* `heights`: the heights of all beginnings of a list.
-/

namespace CabScript

open Instruction

/-- The instructions before the first `halt`. Only these are checked, and only these run. -/
def live (code : List Instruction) : List Instruction :=
  code.takeWhile (· ≠ halt)

/-- What instructions add to the stack in all: the sum of what each leaves, less what it takes. -/
def height : List Instruction → Int
  | [] => 0
  | i :: rest => (i.pushes : Int) - i.pops + height rest

/-- The heights that are reached on the way through a list, the start included. -/
def heights (code : List Instruction) : Set Int :=
  Set.range fun k => height (code.take k)

/-! ## The part that runs -/

@[simp] theorem live_nil : live [] = [] := rfl

@[simp] theorem live_halt (rest : List Instruction) : live (halt :: rest) = [] := by
  simp [live]

theorem live_cons {i : Instruction} (h : i ≠ halt) (rest : List Instruction) :
    live (i :: rest) = i :: live rest := by
  simp [live, h]

theorem halt_notMem_live (code : List Instruction) : halt ∉ live code := by
  intro h
  simpa using List.mem_takeWhile_imp h

theorem mem_of_mem_live {code : List Instruction} {i : Instruction} (h : i ∈ live code) :
    i ∈ code :=
  (List.takeWhile_sublist _).subset h

/-- A list without `halt` runs as a whole. -/
theorem live_eq_self {code : List Instruction} (h : halt ∉ code) : live code = code := by
  refine List.takeWhile_eq_self_iff.mpr fun i hi => ?_
  have : i ≠ halt := fun e => h (e ▸ hi)
  simpa using this

theorem live_append {l : List Instruction} (h : halt ∉ l) (m : List Instruction) :
    live (l ++ m) = l ++ live m := by
  refine List.takeWhile_append_of_pos fun i hi => ?_
  have : i ≠ halt := fun e => h (e ▸ hi)
  simpa using this

theorem live_prefix (code : List Instruction) : live code <+: code :=
  List.takeWhile_prefix _

/-- An instruction that runs stands at its address in the whole list. -/
theorem getElem?_of_live {code : List Instruction} {address : Nat} {i : Instruction}
    (hi : (live code)[address]? = some i) : code[address]? = some i := by
  obtain ⟨rest, split⟩ := live_prefix code
  have bound := (List.getElem?_eq_some_iff.mp hi).1
  rw [← hi, ← List.getElem?_append_left bound, split]

/-- So do all before it. -/
theorem exists_live_eq_append {code : List Instruction} {address : Nat} {i : Instruction}
    (hi : (live code)[address]? = some i) :
    ∃ after, live code = code.take address ++ i :: after := by
  obtain ⟨rest, split⟩ := live_prefix code
  obtain ⟨bound, rfl⟩ := List.getElem?_eq_some_iff.mp hi
  have before : (live code).take address = code.take address := by
    rw [← List.take_append_of_le_length bound.le, split]
  refine ⟨(live code).drop (address + 1), ?_⟩
  rw [← before, ← List.drop_eq_getElem_cons bound, List.take_append_drop]

/-- The part that runs is as long as the address of the first `halt`. -/
theorem length_live (code : List Instruction) : (live code).length = code.idxOf halt := by
  induction code with
  | nil => rfl
  | cons i rest ih =>
    by_cases h : i = halt
    · subst h
      simp
    · rw [live_cons h, List.length_cons, ih, List.idxOf_cons_ne _ h]

theorem length_live_le (code : List Instruction) : (live code).length ≤ code.length := by
  rw [length_live]
  exact List.idxOf_le_length

/-- Where instructions of a kind stand in a list, one of them stands first. -/
theorem exists_first {kind : Instruction → Bool} {code : List Instruction}
    (h : ∃ i ∈ code, kind i = true) :
    ∃ before i after, code = before ++ i :: after ∧ (∀ j ∈ before, kind j = false) ∧
      kind i = true := by
  obtain ⟨i, hi⟩ := Option.isSome_iff_exists.mp (List.find?_isSome.mpr h)
  obtain ⟨first, before, after, split, others⟩ := List.find?_eq_some_iff_append.mp hi
  exact ⟨before, i, after, split, fun j hj => by simpa using others j hj, first⟩

/-! ## Sums over lists -/

@[simp] theorem height_nil : height [] = 0 := rfl

@[simp] theorem height_cons (i : Instruction) (rest : List Instruction) :
    height (i :: rest) = (i.pushes : Int) - i.pops + height rest := rfl

@[simp] theorem height_append (l m : List Instruction) :
    height (l ++ m) = height l + height m := by
  induction l with
  | nil => simp
  | cons i rest ih => rw [List.cons_append, height_cons, height_cons, ih, add_assoc]

@[simp] theorem totalPoolUse_nil : totalPoolUse [] = 0 := rfl

@[simp] theorem totalPoolUse_append (l m : List Instruction) :
    totalPoolUse (l ++ m) = totalPoolUse l + totalPoolUse m := by
  induction l with
  | nil => simp
  | cons i rest ih => rw [List.cons_append, totalPoolUse_cons, totalPoolUse_cons, ih, add_assoc]

/-- An instruction leaves at most one value more than it takes from the stack and the pool. -/
theorem pushes_le (i : Instruction) : i.pushes ≤ i.pops + i.poolUse + 1 := by
  cases i <;> simp [pushes, pops, poolUse]

/-- So the stack gets no higher than there are constants taken and instructions walked. -/
theorem height_le (code : List Instruction) :
    height code ≤ totalPoolUse code + code.length := by
  induction code with
  | nil => simp
  | cons i rest ih =>
    have := pushes_le i
    simp only [height_cons, totalPoolUse_cons, List.length_cons]
    omega

/-! ## The heights on the way -/

theorem height_mem_heights (code : List Instruction) : height code ∈ heights code :=
  ⟨code.length, by simp⟩

@[simp] theorem heights_nil : heights [] = {0} := by
  simp [heights]

/-- One more instruction adds the height behind it. -/
theorem heights_concat (code : List Instruction) (i : Instruction) :
    heights (code ++ [i]) = insert (height (code ++ [i])) (heights code) := by
  ext h
  constructor
  · rintro ⟨k, rfl⟩
    rcases Nat.lt_or_ge code.length k with hk | hk
    · left
      simp only
      rw [List.take_of_length_le (by simpa using Nat.succ_le_of_lt hk)]
    · right
      exact ⟨k, by simp only; rw [List.take_append_of_le_length hk]⟩
  · rintro (rfl | ⟨k, rfl⟩)
    · exact height_mem_heights _
    · refine ⟨min k code.length, ?_⟩
      simp only
      rw [List.take_append_of_le_length (Nat.min_le_right ..), ← List.take_eq_take_min]

end CabScript
