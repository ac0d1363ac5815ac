import CabScript.Script.Basic

/-!
# Turning an object around

When the object that a script belongs to is turned around, the numbers by which it selects cars
shift. The shift is applied to every constant that an instruction pushes right before one that
takes the number of a car. It counts the constants on its way over the instructions, to know which
one an instruction pushes.

The check of a script ends at the first `halt`, so behind one there may be blocks of any size, and
the count may come to the greatest number that a machine has. A block makes it stay there. A single
constant does not: with checked arithmetic the shift stops at it, and without checks it goes on from
the first constant.

## Main definitions

* `Arithmetic`: how machine numbers are added.
* `ShiftWalk`, `ShiftWalk.along`: the walk over the instructions.
* `Script.shiftCarIndices`, `Script.shiftStops`: the shift with checked arithmetic, and whether it
  stops on its way.

## Main statements

* `ShiftWalk.size_pool_along`, `Script.length_constants_shiftCarIndicesBy`: the pool keeps its length,
  so the script stays admitted.
-/

namespace CabScript

/-- How machine numbers are added when the sum is too great for them. -/
inductive Arithmetic where
  /-- The program stops. -/
  | checked
  /-- The sum wraps around. -/
  | wrapping
deriving DecidableEq, Repr

/-- The count after one more constant, if the program goes on. -/
def Arithmetic.next (arithmetic : Arithmetic) (greatest count : Nat) : Option Nat :=
  if count < greatest then some (count + 1)
  else
    match arithmetic with
    | checked => none
    | wrapping => some 0

/-- The greatest count over a pool of a length. Counts have 64 bits, which is enough for every pool
in memory; a list that is longer has counts up to its end. -/
def greatestCount (length : Nat) : Nat :=
  max (UInt64.size - 1) length

/-- A shift on its way. -/
structure ShiftWalk where
  /-- How many constants the instructions so far take, which is where the next one is in the pool.
  There is none if the walk has stopped. -/
  cursor : Option Nat
  /-- The pool, shifted as far as the walk has come. -/
  pool : Array Float
deriving Repr

namespace ShiftWalk

/-- The walk at an instruction with another one behind it. A constant that is not in the pool is
passed over. -/
def step (arithmetic : Arithmetic) (offset : Float) (w : ShiftWalk) (i : Instruction)
    (following : Option Instruction) : ShiftWalk :=
  match w.cursor, i with
  | some cursor, .constant =>
    { cursor := arithmetic.next (greatestCount w.pool.size) cursor
      pool :=
        if following.any Instruction.takesCarIndex then w.pool.modify cursor (· + offset)
        else w.pool }
  | some cursor, .constants count =>
    { w with cursor := some (min (cursor + count) (greatestCount w.pool.size)) }
  | _, _ => w

/-- The walk over instructions. -/
def along (arithmetic : Arithmetic) (offset : Float) : ShiftWalk → List Instruction → ShiftWalk
  | w, [] => w
  | w, i :: rest => along arithmetic offset (w.step arithmetic offset i rest.head?) rest

variable (arithmetic : Arithmetic) (offset : Float) (w : ShiftWalk)

@[simp] theorem size_pool_step (i : Instruction) (following : Option Instruction) :
    (w.step arithmetic offset i following).pool.size = w.pool.size := by
  unfold step
  split
  · split <;> simp
  · rfl
  · rfl

/-- The walk keeps the length of the pool. -/
@[simp] theorem size_pool_along (code : List Instruction) :
    (w.along arithmetic offset code).pool.size = w.pool.size := by
  induction code generalizing w with
  | nil => rfl
  | cons i rest ih => rw [along, ih, size_pool_step]

end ShiftWalk

namespace Script

/-- The walk over the instructions of the script, from the first constant on. -/
def shiftWalk (arithmetic : Arithmetic) (s : Script) (offset : Float) : ShiftWalk :=
  ShiftWalk.along arithmetic offset ⟨some 0, s.constants.toArray⟩ s.code

/-- Shifts the numbers of cars in the constants. If the walk stops they stay as they are then. -/
def shiftCarIndicesBy (arithmetic : Arithmetic) (s : Script) (offset : Float) : Script :=
  { s with
    constants := (s.shiftWalk arithmetic offset).pool.toList
    admitted := by simpa [shiftWalk] using s.admitted }

/-- The shift keeps the length of the pool. -/
@[simp] theorem length_constants_shiftCarIndicesBy (arithmetic : Arithmetic) (s : Script)
    (offset : Float) :
    (s.shiftCarIndicesBy arithmetic offset).constants.length = s.constants.length := by
  simp [shiftCarIndicesBy, shiftWalk]

/-- The shift with checked arithmetic. -/
def shiftCarIndices (s : Script) (offset : Float) : Script :=
  s.shiftCarIndicesBy .checked offset

/-- Whether the shift stops before it has come to the end. -/
def shiftStops (s : Script) (offset : Float) : Bool :=
  (s.shiftWalk .checked offset).cursor.isNone

end Script

end CabScript
