import CabScript.Proofs.Code
import CabScript.Script.Listing
import CabScript.Script.Reversal
import Mathlib.Data.Nat.Count
import Mathlib.Data.Nat.SuccPred
import Mathlib.Order.SuccPred.IntervalSucc

/-!
# Walks over the pool of constants

Instructions take their constants one after the other, so the position at which an instruction
starts is what all before it take. The shift of car numbers counts the constants, and is at this
position as long as its count has not come to the greatest number. The listing is defined by the
shares of the pool. Here it is also a walk over the instructions that uses the pool up, and the two
are proved to be the same.

## Main definitions

* `poolPosition`, `poolEntries`: where an instruction starts in the pool, and what it takes there.
* `FeedsCar`, `carEntries`: the constants that are numbers of cars.
* `ShiftWalk.upTo`, `ShiftWalk.timesShifted`: the shift when it comes to an address, and how often
  it has shifted an entry on its way there.
* `OverflowsBefore`: the count of constants does not fit.
* `listingWalk`: the listing as a walk that uses the pool up.

## Main statements

* `eq_of_mem_poolEntries`: no entry belongs to two instructions.
* `ShiftWalk.cursor_upTo`, `ShiftWalk.cursor_upTo_checked`: where the shift is.
* `Script.getElem?_constants_shiftCarIndicesBy`: which entries the shift changes.
* `Script.shiftStops_iff`: when it stops on its way.
* `listingWith_eq`: the walk is the listing.
-/

namespace CabScript

open Instruction

/-- The position in the pool at which the instruction at an address starts. -/
def poolPosition (code : List Instruction) (address : Nat) : Nat :=
  totalPoolUse (code.take address)

/-- The entries of the pool that the instruction at an address takes. -/
def poolEntries (code : List Instruction) (address : Nat) : Set Nat :=
  Set.Ico (poolPosition code address) (poolPosition code (address + 1))

/-- The instruction at an address pushes the number of a car for the next one. -/
def FeedsCar (code : List Instruction) (address : Nat) : Prop :=
  code[address]? = some constant ∧ code[address + 1]?.any takesCarIndex = true

instance (code : List Instruction) (address : Nat) : Decidable (FeedsCar code address) :=
  inferInstanceAs (Decidable (_ ∧ _))

/-- The entries of the pool that are numbers of cars. -/
def carEntries (code : List Instruction) : Set Nat :=
  poolPosition code '' {address | FeedsCar code address}

variable {code : List Instruction} {address : Nat} {i : Instruction}

/-! ## Positions -/

@[simp] theorem poolPosition_zero (code : List Instruction) : poolPosition code 0 = 0 := rfl

/-- The position moves on by what the instruction takes. -/
theorem poolPosition_succ (hi : code[address]? = some i) :
    poolPosition code (address + 1) = poolPosition code address + i.poolUse := by
  obtain ⟨bound, rfl⟩ := List.getElem?_eq_some_iff.mp hi
  rw [poolPosition, List.take_succ_eq_append_getElem bound, totalPoolUse_append]
  rfl

/-- Behind the last instruction it stays. -/
theorem poolPosition_of_length_le (h : code.length ≤ address) :
    poolPosition code address = totalPoolUse code := by
  rw [poolPosition, List.take_of_length_le h]

theorem poolPosition_succ_of_none (h : code[address]? = none) :
    poolPosition code (address + 1) = poolPosition code address := by
  have behind := List.getElem?_eq_none_iff.mp h
  rw [poolPosition_of_length_le behind, poolPosition_of_length_le (Nat.le_succ_of_le behind)]

theorem poolPosition_mono (code : List Instruction) : Monotone (poolPosition code) := by
  refine monotone_nat_of_le_succ fun address => ?_
  cases hi : code[address]? with
  | none => rw [poolPosition_succ_of_none hi]
  | some i =>
    rw [poolPosition_succ hi]
    exact Nat.le_add_right ..

theorem mem_poolEntries (hi : code[address]? = some i) {k : Nat} :
    k ∈ poolEntries code address ↔
      poolPosition code address ≤ k ∧ k < poolPosition code address + i.poolUse := by
  rw [poolEntries, poolPosition_succ hi, Set.mem_Ico]

/-- **No entry of the pool belongs to two instructions.** -/
theorem eq_of_mem_poolEntries {a b k : Nat} (ha : k ∈ poolEntries code a)
    (hb : k ∈ poolEntries code b) : a = b := by
  by_contra ne
  have disjoint := (poolPosition_mono code).pairwise_disjoint_on_Ico_succ ne
  exact Set.disjoint_left.mp disjoint ha hb

/-! ## Numbers of cars -/

theorem FeedsCar.mem_poolEntries (h : FeedsCar code address) :
    poolPosition code address ∈ poolEntries code address :=
  (CabScript.mem_poolEntries h.1).mpr ⟨Nat.le_refl _, Nat.lt_succ_self _⟩

/-- An entry is the number of a car if the instruction that takes it feeds one. -/
theorem mem_carEntries_iff {k : Nat} (hk : k ∈ poolEntries code address) :
    k ∈ carEntries code ↔ FeedsCar code address := by
  constructor
  · rintro ⟨other, feeds, rfl⟩
    rwa [eq_of_mem_poolEntries hk feeds.mem_poolEntries]
  · intro feeds
    obtain ⟨ge, lt⟩ := (mem_poolEntries feeds.1).mp hk
    exact ⟨address, feeds, Nat.le_antisymm ge (Nat.le_of_lt_succ lt)⟩

/-! ## The shift as a walk -/

/-- A single constant in front of the address finds the count at its greatest, where one more does
not fit. -/
def OverflowsBefore (code : List Instruction) (length address : Nat) : Prop :=
  ∃ earlier < address, code[earlier]? = some constant ∧
    greatestCount length ≤ poolPosition code earlier

theorem OverflowsBefore.mono {length later : Nat} (h : OverflowsBefore code length address)
    (le : address ≤ later) : OverflowsBefore code length later := by
  obtain ⟨earlier, lt, single, full⟩ := h
  exact ⟨earlier, lt.trans_le le, single, full⟩

/-- The position behind is one that cannot be counted. -/
theorem OverflowsBefore.lt_poolPosition {length : Nat} (h : OverflowsBefore code length address) :
    greatestCount length < poolPosition code address := by
  obtain ⟨earlier, lt, single, full⟩ := h
  have next := poolPosition_succ single
  have mono := poolPosition_mono code (Nat.succ_le_of_lt lt)
  simp only [poolUse, Nat.succ_eq_add_one] at next mono
  omega

theorem overflowsBefore_succ_iff {length : Nat} :
    OverflowsBefore code length (address + 1) ↔
      OverflowsBefore code length address ∨
        code[address]? = some constant ∧ greatestCount length ≤ poolPosition code address := by
  constructor
  · rintro ⟨earlier, lt, single, full⟩
    rcases Nat.lt_succ_iff_lt_or_eq.mp lt with lt | rfl
    · exact .inl ⟨earlier, lt, single, full⟩
    · exact .inr ⟨single, full⟩
  · rintro (before | here)
    · exact before.mono (Nat.le_succ address)
    · exact ⟨address, Nat.lt_succ_self address, here⟩

namespace ShiftWalk

/-- The walk over code when it comes to an address. -/
def upTo (arithmetic : Arithmetic) (offset : Float) (w : ShiftWalk) (code : List Instruction) :
    Nat → ShiftWalk
  | 0 => w
  | address + 1 =>
    match code[address]? with
    | some i => (upTo arithmetic offset w code address).step arithmetic offset i code[address + 1]?
    | none => upTo arithmetic offset w code address

/-- How often the walk has shifted an entry when it comes to an address. -/
def timesShifted (arithmetic : Arithmetic) (offset : Float) (w : ShiftWalk)
    (code : List Instruction) (k address : Nat) : Nat :=
  Nat.count
    (fun earlier => FeedsCar code earlier ∧ (w.upTo arithmetic offset code earlier).cursor = some k)
    address

section Walk

variable (arithmetic : Arithmetic) (offset : Float) (w : ShiftWalk)

theorem upTo_cons_succ (i : Instruction) (rest : List Instruction) (address : Nat) :
    w.upTo arithmetic offset (i :: rest) (address + 1) =
      (w.step arithmetic offset i rest.head?).upTo arithmetic offset rest address := by
  induction address with
  | zero => rw [List.head?_eq_getElem?]; rfl
  | succ address ih =>
    rw [upTo, ih, upTo]
    rfl

/-- **The walk has come to the end of the code.** -/
theorem along_eq_upTo (code : List Instruction) :
    w.along arithmetic offset code = w.upTo arithmetic offset code code.length := by
  induction code generalizing w with
  | nil => rfl
  | cons i rest ih => rw [along, ih, List.length_cons, upTo_cons_succ]

@[simp] theorem size_pool_upTo (code : List Instruction) (address : Nat) :
    (w.upTo arithmetic offset code address).pool.size = w.pool.size := by
  induction address with
  | zero => rfl
  | succ address ih =>
    rw [upTo]
    split
    · rw [size_pool_step, ih]
    · exact ih

/-! ### One step -/

/-- A step changes the pool only where the cursor is, and there only at the number of a car. -/
theorem getElem?_pool_step (hi : code[address]? = some i) (k : Nat) :
    (w.step arithmetic offset i code[address + 1]?).pool[k]? =
      if FeedsCar code address ∧ w.cursor = some k then w.pool[k]?.map (· + offset)
      else w.pool[k]? := by
  obtain ⟨cursor, pool⟩ := w
  cases cursor with
  | none => simp [step]
  | some cursor =>
    cases i with
    | constant =>
      by_cases fed : code[address + 1]?.any takesCarIndex = true
      · simp [step, FeedsCar, hi, fed, Array.getElem?_modify]
      · simp [step, FeedsCar, hi, fed]
    | _ => simp [step, FeedsCar, hi]

/-- The cursor moves on by what the instruction takes, but not beyond the greatest count, unless this
is a single constant that does not fit. -/
theorem cursor_step {position length : Nat} (size : w.pool.size = length)
    (here : w.cursor = some (min position (greatestCount length)))
    (fits : i = constant → position < greatestCount length) (following : Option Instruction) :
    (w.step arithmetic offset i following).cursor =
      some (min (position + i.poolUse) (greatestCount length)) := by
  obtain ⟨cursor, pool⟩ := w
  simp only at size here
  subst size here
  cases i with
  | constant =>
    have lt := fits rfl
    have next : min (position + 1) (greatestCount pool.size) = position + 1 := Nat.min_eq_left lt
    rw [Nat.min_eq_left lt.le, poolUse, next]
    exact if_pos lt
  | constants count =>
    simp only [step, poolUse, Option.some.injEq]
    omega
  | _ => rfl

/-- At a single constant that does not fit, checked arithmetic stops the walk. -/
theorem cursor_step_checked (here : w.cursor = some (greatestCount w.pool.size))
    (following : Option Instruction) :
    (w.step .checked offset constant following).cursor = none := by
  obtain ⟨cursor, pool⟩ := w
  simp only at here
  subst here
  exact if_neg (Nat.lt_irrefl _)

/-- It has stopped for good. -/
theorem step_of_stopped (stopped : w.cursor = none) (following : Option Instruction) :
    w.step arithmetic offset i following = w := by
  simp only [step, stopped]

end Walk

/-! ### From the first constant on -/

section Start

variable (arithmetic : Arithmetic) (offset : Float) (pool : Array Float)

/-- **The cursor is at the position of the instruction,** up to the greatest count, as long as no
single constant overflows. -/
theorem cursor_upTo (fits : ¬ OverflowsBefore code pool.size address) :
    (upTo arithmetic offset ⟨some 0, pool⟩ code address).cursor =
      some (min (poolPosition code address) (greatestCount pool.size)) := by
  induction address with
  | zero => rw [poolPosition_zero, Nat.zero_min]; rfl
  | succ address ih =>
    obtain ⟨before, here⟩ := not_or.mp (mt overflowsBefore_succ_iff.mpr fits)
    have reached := ih before
    rw [upTo]
    split
    · rename_i i hi
      have fits (single : i = constant) : poolPosition code address < greatestCount pool.size :=
        Nat.lt_of_not_le fun full => here ⟨single ▸ hi, full⟩
      rw [poolPosition_succ hi]
      exact cursor_step arithmetic offset _ (size_pool_upTo ..) reached fits _
    · rename_i hi
      rwa [poolPosition_succ_of_none hi]

/-- **With checked arithmetic it has stopped** once one does. -/
theorem cursor_upTo_checked (overflows : OverflowsBefore code pool.size address) :
    (upTo .checked offset ⟨some 0, pool⟩ code address).cursor = none := by
  induction address with
  | zero =>
    obtain ⟨earlier, lt, -⟩ := overflows
    cases lt
  | succ address ih =>
    by_cases before : OverflowsBefore code pool.size address
    · have stopped := ih before
      rw [upTo]
      split
      · rwa [step_of_stopped _ _ _ stopped]
      · exact stopped
    · obtain ⟨single, full⟩ := (overflowsBefore_succ_iff.mp overflows).resolve_left before
      have reached := cursor_upTo .checked offset pool before
      rw [Nat.min_eq_right full] at reached
      simp only [upTo, single]
      exact cursor_step_checked offset _ (by rwa [size_pool_upTo]) _

variable {arithmetic pool}

/-- So the cursor is at an entry exactly if the instruction starts there, unless it has wrapped. -/
theorem cursor_upTo_eq_some_iff {k : Nat} (inside : k < pool.size)
    (settled : arithmetic = .checked ∨ ¬ OverflowsBefore code pool.size address) :
    (upTo arithmetic offset ⟨some 0, pool⟩ code address).cursor = some k ↔
      poolPosition code address = k := by
  have below : k < greatestCount pool.size := inside.trans_le (Nat.le_max_right ..)
  by_cases overflows : OverflowsBefore code pool.size address
  · obtain rfl := settled.resolve_right (not_not_intro overflows)
    have beyond := overflows.lt_poolPosition
    rw [cursor_upTo_checked offset pool overflows]
    exact iff_of_false (by simp) (by omega)
  · rw [cursor_upTo arithmetic offset pool overflows, Option.some.injEq]
    omega

end Start

/-! ### What has been shifted -/

/-- **An entry is shifted as often as the cursor is there at the number of a car.** -/
theorem getElem?_pool_upTo (arithmetic : Arithmetic) (offset : Float) (w : ShiftWalk)
    (code : List Instruction) (k address : Nat) :
    (w.upTo arithmetic offset code address).pool[k]? =
      w.pool[k]?.map (· + offset)^[w.timesShifted arithmetic offset code k address] := by
  induction address with
  | zero => simp [upTo, timesShifted]
  | succ address ih =>
    rw [upTo, timesShifted, Nat.count_succ, ← timesShifted]
    cases hi : code[address]? with
    | none =>
      rw [if_neg fun feeds => by simp [FeedsCar, hi] at feeds]
      exact ih
    | some i =>
      rw [getElem?_pool_step arithmetic offset _ hi, ih]
      split_ifs
      · rw [Option.map_map, ← Function.iterate_succ']
      · rfl

variable {arithmetic : Arithmetic} {pool : Array Float} {k : Nat}

/-- The number of a car is shifted once, -/
theorem timesShifted_of_mem (inside : k < pool.size) (car : k ∈ carEntries code)
    (settled : arithmetic = .checked ∨ ¬ OverflowsBefore code pool.size code.length)
    (offset : Float) :
    timesShifted arithmetic offset ⟨some 0, pool⟩ code k code.length = 1 := by
  obtain ⟨address, feeds, here⟩ := car
  have bound : address < code.length := (List.getElem?_eq_some_iff.mp feeds.1).1
  have reached {earlier : Nat} (lt : earlier < code.length) :
      (upTo arithmetic offset ⟨some 0, pool⟩ code earlier).cursor = some k ↔
        poolPosition code earlier = k :=
    cursor_upTo_eq_some_iff offset inside (settled.imp_right (mt (·.mono lt.le)))
  rw [timesShifted, Nat.count_eq_card_filter_range, Finset.card_eq_one]
  refine ⟨address, Finset.ext fun earlier => ?_⟩
  rw [Finset.mem_filter, Finset.mem_range, Finset.mem_singleton]
  constructor
  · rintro ⟨lt, feeds', cursor⟩
    refine eq_of_mem_poolEntries (k := k) ?_ (here ▸ feeds.mem_poolEntries)
    exact (reached lt).mp cursor ▸ feeds'.mem_poolEntries
  · rintro rfl
    exact ⟨bound, feeds, (reached bound).mpr here⟩

/-- and nothing else is. -/
theorem timesShifted_of_notMem (inside : k < pool.size) (other : k ∉ carEntries code)
    (settled : arithmetic = .checked ∨ ¬ OverflowsBefore code pool.size code.length)
    (offset : Float) :
    timesShifted arithmetic offset ⟨some 0, pool⟩ code k code.length = 0 := by
  refine Nat.count_of_forall_not fun earlier lt shifted => other ?_
  obtain ⟨feeds, cursor⟩ := shifted
  exact ⟨earlier, feeds, (cursor_upTo_eq_some_iff offset inside
    (settled.imp_right (mt (·.mono lt.le)))).mp cursor⟩

end ShiftWalk

namespace Script

/-- The count of constants does not fit somewhere on the way. -/
def CountOverflows (s : Script) : Prop :=
  OverflowsBefore s.code s.constants.length s.code.length

/-- The shift of a script when it comes to an address. -/
def shiftWalkTo (arithmetic : Arithmetic) (s : Script) (offset : Float) (address : Nat) :
    ShiftWalk :=
  ShiftWalk.upTo arithmetic offset ⟨some 0, s.constants.toArray⟩ s.code address

section Shift

variable (arithmetic : Arithmetic) (s : Script) (offset : Float)

/-- **The shift has come to the end.** -/
theorem shiftWalk_eq :
    s.shiftWalk arithmetic offset = s.shiftWalkTo arithmetic offset s.code.length :=
  ShiftWalk.along_eq_upTo arithmetic offset _ s.code

/-- **With checked arithmetic the shift stops exactly if the count overflows.** -/
theorem shiftStops_iff : s.shiftStops offset = true ↔ s.CountOverflows := by
  rw [shiftStops, shiftWalk_eq, Option.isNone_iff_eq_none]
  by_cases overflows : s.CountOverflows
  · exact iff_of_true (ShiftWalk.cursor_upTo_checked offset _ overflows) overflows
  · refine iff_of_false ?_ overflows
    rw [shiftWalkTo, ShiftWalk.cursor_upTo .checked offset s.constants.toArray overflows]
    simp

/-- How often an entry is shifted on the whole way. -/
def timesShifted (k : Nat) : Nat :=
  ShiftWalk.timesShifted arithmetic offset ⟨some 0, s.constants.toArray⟩ s.code k s.code.length

theorem getElem?_constants_shiftCarIndicesBy_eq (k : Nat) :
    (s.shiftCarIndicesBy arithmetic offset).constants[k]? =
      s.constants[k]?.map (· + offset)^[s.timesShifted arithmetic offset k] := by
  show (s.shiftWalk arithmetic offset).pool.toList[k]? = _
  rw [Array.getElem?_toList, shiftWalk_eq, shiftWalkTo, ShiftWalk.getElem?_pool_upTo,
    List.getElem?_toArray, timesShifted]

variable {arithmetic}

/-- **The shift changes the numbers of cars, each once, and nothing else,** if the arithmetic is
checked, and also without checks if the count does not overflow. -/
theorem getElem?_constants_shiftCarIndicesBy
    (settled : arithmetic = .checked ∨ ¬ s.CountOverflows) (k : Nat) :
    (k ∈ carEntries s.code → (s.shiftCarIndicesBy arithmetic offset).constants[k]? =
      s.constants[k]?.map (· + offset)) ∧
    (k ∉ carEntries s.code →
      (s.shiftCarIndicesBy arithmetic offset).constants[k]? = s.constants[k]?) := by
  rcases Nat.lt_or_ge k s.constants.length with inside | outside
  · rw [getElem?_constants_shiftCarIndicesBy_eq, timesShifted]
    constructor
    · intro car
      rw [ShiftWalk.timesShifted_of_mem inside car settled]
      rfl
    · intro other
      rw [ShiftWalk.timesShifted_of_notMem inside other settled]
      exact Option.map_id'
  · have none : s.constants[k]? = Option.none := List.getElem?_eq_none outside
    have none' : (s.shiftCarIndicesBy arithmetic offset).constants[k]? = Option.none :=
      List.getElem?_eq_none (by rwa [length_constants_shiftCarIndicesBy])
    simp [none, none']

end Shift

end Script

/-! ## The listing as a walk -/

/-- The state of the walk that lists a script. -/
structure ListingWalk where
  /-- The words so far. -/
  words : List String
  /-- The constants that are not listed yet. -/
  unread : List Float

/-- The walk after an instruction. A constant that is not there has no word. -/
def ListingWalk.step (print : Float → String) (w : ListingWalk) : Instruction → ListingWalk
  | .constant =>
    match w.unread with
    | x :: unread => ⟨w.words ++ [print x], unread⟩
    | [] => w
  | .constants count =>
    ⟨w.words ++ (w.unread.take count).map print, w.unread.drop count⟩
  | i => { w with words := w.words ++ [i.text] }

/-- The walk over instructions with their pool. -/
def listingWalk (print : Float → String) (code : List Instruction) (pool : List Float) :
    ListingWalk :=
  code.foldl (ListingWalk.step print) ⟨[], pool⟩

section ListingWalk

variable (print : Float → String)

/-- A step lists an instruction with its share of the pool. -/
theorem ListingWalk.step_eq (w : ListingWalk) (i : Instruction) :
    w.step print i =
      ⟨w.words ++ Allotted.words print ⟨i, w.unread.take i.poolUse⟩,
        w.unread.drop i.poolUse⟩ := by
  obtain ⟨words, unread⟩ := w
  cases i with
  | constant => cases unread <;> simp [step, Allotted.words, poolUse]
  | _ => rfl

theorem ListingWalk.foldl_step (w : ListingWalk) (code : List Instruction) :
    code.foldl (step print) w =
      ⟨w.words ++ (allot code w.unread).flatMap (Allotted.words print),
        w.unread.drop (totalPoolUse code)⟩ := by
  induction code generalizing w with
  | nil => simp
  | cons i rest ih =>
    rw [List.foldl_cons, step_eq, ih, allot_cons, List.flatMap_cons,
      totalPoolUse_cons]
    simp only [List.append_assoc, List.drop_drop]

/-- What the walk has not listed yet is what lies behind the position of the next instruction. -/
theorem unread_listingWalk_take (code : List Instruction) (pool : List Float) (address : Nat) :
    (listingWalk print (code.take address) pool).unread =
      pool.drop (poolPosition code address) := by
  rw [listingWalk, ListingWalk.foldl_step]
  rfl

/-- The words of an instruction follow those of the instructions before it. -/
theorem words_listingWalk_take (hi : code[address]? = some i) (pool : List Float) :
    (listingWalk print (code.take (address + 1)) pool).words =
      (listingWalk print (code.take address) pool).words ++
        Allotted.words print ⟨i, (pool.drop (poolPosition code address)).take i.poolUse⟩ := by
  obtain ⟨bound, rfl⟩ := List.getElem?_eq_some_iff.mp hi
  rw [listingWalk, List.take_succ_eq_append_getElem bound, List.foldl_concat,
    ListingWalk.step_eq, ← listingWalk, unread_listingWalk_take]

/-- **At its end the walk has listed the script.** -/
theorem listingWith_eq (code : List Instruction) (pool : List Float) :
    Script.listingWith print code pool = " ".intercalate (listingWalk print code pool).words := by
  rw [listingWalk, ListingWalk.foldl_step]
  rfl

end ListingWalk

end CabScript
