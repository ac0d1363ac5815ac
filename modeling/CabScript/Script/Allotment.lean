import CabScript.Instruction.Basic

/-!
# Which instruction takes which constants

Instructions take constants from the front of the pool, in the order in which they stand. The
allotment lists every instruction of a script with its share of the pool; the share of an
instruction beyond the end of the pool is cut short.

## Main statements

* `flatMap_share_allot`: the shares and what no instruction takes are the pool again.
-/

namespace CabScript

/-- An instruction in its place. -/
structure Allotted where
  /-- The instruction. -/
  instruction : Instruction
  /-- The constants it takes. -/
  share : List Float
deriving Repr

/-- Allots a pool to instructions; `before` holds the instructions served already, the latest
first. -/
def allotAfter (before : List Allotted) : List Instruction → List Float → List Allotted
  | [], _ => before.reverse
  | i :: rest, pool =>
    allotAfter (⟨i, pool.take i.poolUse⟩ :: before) rest (pool.drop i.poolUse)

/-- Allots a pool to instructions. -/
def allot (code : List Instruction) (pool : List Float) : List Allotted :=
  allotAfter [] code pool

/-- How many constants instructions take from a pool that lasts. -/
def totalPoolUse : List Instruction → Nat
  | [] => 0
  | i :: rest => i.poolUse + totalPoolUse rest

theorem allotAfter_eq (before : List Allotted) (code : List Instruction) (pool : List Float) :
    allotAfter before code pool = before.reverse ++ allot code pool := by
  induction code generalizing before pool with
  | nil => simp [allot, allotAfter]
  | cons i rest ih => simp only [allot, allotAfter]; rw [ih, ih [_]]; simp

@[simp] theorem allot_nil (pool : List Float) : allot [] pool = [] := rfl

@[simp] theorem allot_cons (i : Instruction) (rest : List Instruction) (pool : List Float) :
    allot (i :: rest) pool =
      ⟨i, pool.take i.poolUse⟩ :: allot rest (pool.drop i.poolUse) := by
  simp only [allot, allotAfter]
  rw [allotAfter_eq]; rfl

@[simp] theorem totalPoolUse_cons (i : Instruction) (rest : List Instruction) :
    totalPoolUse (i :: rest) = i.poolUse + totalPoolUse rest := rfl

/-- The shares in order, and behind them what no instruction takes, are the pool. -/
theorem flatMap_share_allot (code : List Instruction) (pool : List Float) :
    (allot code pool).flatMap Allotted.share ++ pool.drop (totalPoolUse code) = pool := by
  induction code generalizing pool with
  | nil => simp [totalPoolUse]
  | cons i rest ih =>
    have h := ih (pool.drop i.poolUse)
    rw [List.drop_drop] at h
    simp [List.append_assoc, h]

end CabScript
