import CabScript.Proofs.PoolWalks
import CabScript.Proofs.Session

/-!
# All walks over the pool stay together

Four walks go along the instructions of a script and count constants, each in its own way: the check
counts down what is left, an evaluation uses the pool up, the listing does the same, and the shift
of car numbers moves a cursor. Whatever instruction before the first `halt` they come to, they are
at the same position. So what is listed in a place is what is pushed there, and the number of a car
is shifted where it is pushed. Behind the `halt`, where only the listing and the shift go on, the
cursor may overflow.

## Main definitions

* `Script.Reaches`: an evaluation comes to an address.
* `Script.Aligned`: the four walks are at a position when they come to an address.
* `Script.Serves`: a share of the pool is pushed and listed at an address.
* `carShift`: what calls add to the number of a car.

## Main statements

* `Script.aligned`, `Script.serves`: the walks at every address that runs.
* `Script.CountOverflows.halt_mem`: nothing overflows there.
* `pool_walks_aligned`: the same after any calls, and what they change in the pool.
* `pool_walks_part_behind_halt`: a shift that overflows.
-/

namespace CabScript

open Instruction

/-! ## Coming to an address -/

variable {γ : Type} [WordSource γ]

/-- What has run to its end was not fatal. -/
theorem goesOn_of_run {setting : Setting} {address : Nat} {l : List Instruction} {p : Pass γ}
    (noHalt : halt ∉ l) (finished : (run setting address l p).failure = none) :
    ∀ i ∈ l, i.isFatal = false := by
  fun_induction run setting address l p with
  | case1 => simp
  | case2 => simp at noHalt
  | case3 address i l p hi p' h ih =>
    obtain ⟨goesOn, -, -⟩ := step_eq_ok_iff.mp h
    have rest := ih (fun mem => noHalt (List.mem_cons_of_mem i mem)) finished
    exact List.forall_mem_cons.mpr ⟨goesOn, rest⟩
  | case4 => cases finished

namespace Script

/-- An evaluation comes to an address, and has a pass there. -/
def Reaches (s : Script) (v : Viewpoint) (source : γ) (address : Nat) (p : Pass γ) : Prop :=
  run ⟨v, s.lastResult⟩ 0 (s.code.take address) (s.start source) = ⟨none, p⟩

section Live

variable {s : Script} {address : Nat} {i : Instruction}

theorem halt_notMem_take (hi : (live s.code)[address]? = some i) :
    halt ∉ s.code.take address := by
  obtain ⟨after, split⟩ := exists_live_eq_append hi
  intro mem
  exact halt_notMem_live s.code (split ▸ List.mem_append_left _ mem)

theorem length_take_of_live (hi : (live s.code)[address]? = some i) :
    (s.code.take address).length = address :=
  List.length_take_of_le (List.getElem?_eq_some_iff.mp (getElem?_of_live hi)).1.le

/-- The check comes to every instruction that runs, and passes it. -/
theorem exists_counts (hi : (live s.code)[address]? = some i) : ∃ b b',
    Budget.spendAll 0 (s.code.take address) ⟨0, s.constants.length, 0⟩ = .ok b ∧
      b.unread + poolPosition s.code address = s.constants.length ∧
      b.spend address i = .ok b' ∧ b'.deepest ≤ s.stack.capacity := by
  obtain ⟨after, split⟩ := exists_live_eq_append hi
  obtain ⟨last, spent, -, fits⟩ := s.exists_spendAll
  rw [split] at spent
  obtain ⟨b, before, rest⟩ := Budget.exists_spendAll_of_append spent
  rw [Nat.zero_add, length_take_of_live hi, Budget.spendAll] at rest
  split at rest
  · rename_i b' next
    have tallies := ((Tallies.start s.constants.length).spendAll before).unread
    exact ⟨b, b', before, tallies, next, (Budget.deepest_le_of_spendAll rest).trans fits⟩
  · cases rest

/-- An evaluation comes to every instruction in front of which nothing is fatal, and finds there
what the instruction needs. -/
theorem exists_reaches (hi : (live s.code)[address]? = some i)
    (goesOn : ∀ j ∈ s.code.take address, j.isFatal = false) (v : Viewpoint) (source : γ) :
    ∃ p, s.Reaches v source address p ∧ p.Affords i := by
  obtain ⟨b, b', spent, -, next, fits⟩ := exists_counts hi
  have deeper : b.deepest ≤ b'.deepest := by
    obtain ⟨-, -, -, rfl⟩ := Budget.spend_eq_ok_iff.mp next
    exact Nat.le_max_left ..
  have capacity := s.capacity_start source
  obtain ⟨p, ran, sizes⟩ := run_of_spendAll spent (halt_notMem_take hi) goesOn
    (s.start_matches source) (capacity ▸ deeper.trans fits) ⟨v, s.lastResult⟩ 0
  have kept := capacity_run ⟨v, s.lastResult⟩ 0 (s.code.take address) (s.start source)
  rw [ran, capacity] at kept
  exact ⟨p, ran, sizes.affords next (kept ▸ fits)⟩

variable {v : Viewpoint} {source : γ} {p : Pass γ}

theorem Reaches.affords (reached : s.Reaches v source address p)
    (hi : (live s.code)[address]? = some i) : p.Affords i := by
  have goesOn := goesOn_of_run (halt_notMem_take hi) (congrArg Ending.failure reached)
  obtain ⟨p', reached', affords⟩ := exists_reaches hi goesOn v source
  obtain rfl : p' = p := congrArg Ending.pass (reached'.symm.trans reached)
  exact affords

/-- What is unread there is what lies behind the position of the instruction. -/
theorem Reaches.unread (reached : s.Reaches v source address p)
    (hi : (live s.code)[address]? = some i) :
    p.unread = s.constants.drop (poolPosition s.code address) := by
  have unread := unread_run (halt_notMem_take hi) (congrArg Ending.failure reached)
  rwa [reached] at unread

/-- The evaluation goes on from there. -/
theorem Reaches.runFor_eq (reached : s.Reaches v source address p)
    (hi : (live s.code)[address]? = some i) :
    s.runFor v source = run ⟨v, s.lastResult⟩ address (s.code.drop address) p := by
  have split := run_append (halt_notMem_take hi) ⟨v, s.lastResult⟩ 0 (s.code.drop address)
    (s.start source)
  rw [List.take_append_drop, reached, length_take_of_live hi, Nat.zero_add] at split
  exact split

end Live

/-! ## The walks at an address -/

/-- **The four walks over the pool are at one position** when they come to an address. -/
structure Aligned (s : Script) (address position : Nat) : Prop where
  /-- The position lies in the pool, or at its end. -/
  inside : position ≤ s.constants.length
  /-- The check has all constants left but those, and goes on with this count. -/
  checked : ∃ b,
    Budget.spendAll 0 (s.code.take address) ⟨0, s.constants.length, 0⟩ = .ok b ∧
      b.unread + position = s.constants.length ∧
      requiredDepth s.code s.constants.length = Budget.walk address (s.code.drop address) b
  /-- An evaluation that comes there reads on from the position. -/
  read : ∀ {γ : Type} [WordSource γ] (v : Viewpoint) (source : γ) (p : Pass γ),
    s.Reaches v source address p → p.unread = s.constants.drop position ∧
      s.runFor v source = run ⟨v, s.lastResult⟩ address (s.code.drop address) p
  /-- The cursor of the shift is there, whatever the arithmetic. -/
  shifted : ∀ arithmetic offset,
    (s.shiftWalkTo arithmetic offset address).cursor = some position
  /-- The listing goes on with the constants from there. -/
  listed : ∀ print,
    (listingWalk print (s.code.take address) s.constants).unread = s.constants.drop position

/-- A share of the pool is what evaluations push at an address and what the listing has there. -/
structure Serves (s : Script) (address : Nat) (i : Instruction) (share : List Float) : Prop where
  pushed : ∀ {γ : Type} [WordSource γ] (v : Viewpoint) (source : γ) (p : Pass γ),
    s.Reaches v source address p → ∃ p', i.step ⟨v, s.lastResult⟩ address p = .ok p' ∧
      p'.stack.values = share.reverse ++ p.stack.values
  listed : ∀ print, (listingWalk print (s.code.take (address + 1)) s.constants).words =
    (listingWalk print (s.code.take address) s.constants).words ++ share.map print

variable {s : Script} {address : Nat} {i : Instruction}

/-- The constants of an instruction that runs are there. -/
theorem poolPosition_add_le (hi : (live s.code)[address]? = some i) :
    poolPosition s.code address + i.poolUse ≤ s.constants.length := by
  obtain ⟨b, b', -, unread, next, -⟩ := exists_counts hi
  obtain ⟨pool, -⟩ := Budget.spend_eq_ok_iff.mp next
  omega

/-- Up to there nothing overflows. -/
theorem not_overflowsBefore (hi : (live s.code)[address]? = some i) :
    ¬ OverflowsBefore s.code s.constants.length address := by
  intro overflows
  have beyond := overflows.lt_poolPosition
  have counted : s.constants.length ≤ greatestCount s.constants.length := Nat.le_max_right ..
  have inside := poolPosition_add_le hi
  omega

/-- **The walks are aligned** at every address that runs. -/
theorem aligned (hi : (live s.code)[address]? = some i) :
    s.Aligned address (poolPosition s.code address) := by
  have inside := poolPosition_add_le hi
  refine ⟨by omega, ?_, fun v source p reached => ?_, fun arithmetic offset => ?_, fun print => ?_⟩
  · obtain ⟨b, -, spent, unread, -⟩ := exists_counts hi
    refine ⟨b, spent, unread, ?_⟩
    have walk := Budget.walk_append (halt_notMem_take hi) 0 (s.code.drop address)
      ⟨0, s.constants.length, 0⟩
    rw [List.take_append_drop, spent, length_take_of_live hi, Nat.zero_add] at walk
    exact walk
  · exact ⟨reached.unread hi, reached.runFor_eq hi⟩
  · have cursor := ShiftWalk.cursor_upTo arithmetic offset s.constants.toArray
      (not_overflowsBefore hi)
    have counted : s.constants.length ≤ greatestCount s.constants.length := Nat.le_max_right ..
    rw [Nat.min_eq_left (by rw [List.size_toArray]; omega)] at cursor
    exact cursor
  · exact unread_listingWalk_take print s.code s.constants address

/-- **Where constants are pushed they are listed,** in the same order. -/
theorem serves (hi : (live s.code)[address]? = some i)
    (push : i = .constant ∨ ∃ count, i = .constants count) :
    s.Serves address i ((s.constants.drop (poolPosition s.code address)).take i.poolUse) where
  pushed v source p reached := by
    have goesOn : i.isFatal = false := by
      rcases push with rfl | ⟨count, rfl⟩ <;> rfl
    refine ⟨_, step_of_affords goesOn (reached.affords hi), ?_⟩
    rw [← reached.unread hi]
    rcases push with rfl | ⟨count, rfl⟩ <;> rfl
  listed print := by
    rw [words_listingWalk_take print (getElem?_of_live hi)]
    rcases push with rfl | ⟨count, rfl⟩ <;> rfl

/-! ## The same after any calls -/

end Script

/-- The number of a car after a call. -/
def Call.carShift {γ : Type} : Call γ → Float → Float
  | .shiftCarIndices offset, x => x + offset
  | _, x => x

/-- The number of a car after calls, one shift after the other. -/
def carShift {γ : Type} (calls : List (Call γ)) (x : Float) : Float :=
  calls.foldl (fun x call => call.carShift x) x

namespace Script

/-- A call changes the numbers of cars by its offset, if it has one, and nothing else. -/
theorem getElem?_constants_perform (s : Script) (call : Call γ) (k : Nat) :
    (k ∈ carEntries s.code →
      (s.perform call).constants[k]? = s.constants[k]?.map call.carShift) ∧
    (k ∉ carEntries s.code → (s.perform call).constants[k]? = s.constants[k]?) := by
  cases call with
  | evaluate v source =>
    rw [perform, constants_evaluate]
    exact ⟨fun _ => Option.map_id'.symm, fun _ => rfl⟩
  | setLastResult x => exact ⟨fun _ => Option.map_id'.symm, fun _ => rfl⟩
  | shiftCarIndices offset => exact getElem?_constants_shiftCarIndicesBy s offset (.inl rfl) k

/-- **Calls change the same entries of the pool,** each once per shift: the numbers of cars. -/
theorem getElem?_constants_afterCalls (s : Script) (calls : List (Call γ)) (k : Nat) :
    (k ∈ carEntries s.code →
      (s.afterCalls calls).constants[k]? = s.constants[k]?.map (carShift calls)) ∧
    (k ∉ carEntries s.code → (s.afterCalls calls).constants[k]? = s.constants[k]?) := by
  induction calls generalizing s with
  | nil => exact ⟨fun _ => Option.map_id'.symm, fun _ => rfl⟩
  | cons call rest ih =>
    obtain ⟨car, other⟩ := s.getElem?_constants_perform call k
    obtain ⟨cars, others⟩ := ih (s.perform call)
    rw [(s.alike_perform call).code] at cars others
    refine ⟨fun mem => ?_, fun notMem => (others notMem).trans (other notMem)⟩
    refine (cars mem).trans ?_
    rw [car mem, Option.map_map]
    rfl

/-- After calls an instruction takes the same share, shifted if it feeds a car number. -/
theorem share_afterCalls {s : Script} {address : Nat} {i : Instruction}
    (hi : s.code[address]? = some i) (calls : List (Call γ)) :
    ((s.afterCalls calls).constants.drop (poolPosition s.code address)).take i.poolUse =
      if FeedsCar s.code address then
        ((s.constants.drop (poolPosition s.code address)).take i.poolUse).map (carShift calls)
      else (s.constants.drop (poolPosition s.code address)).take i.poolUse := by
  refine List.ext_getElem? fun j => ?_
  rcases Nat.lt_or_ge j i.poolUse with own | behind
  · have entry := (mem_poolEntries hi (k := poolPosition s.code address + j)).mpr (by omega)
    obtain ⟨car, other⟩ := s.getElem?_constants_afterCalls calls (poolPosition s.code address + j)
    rw [mem_carEntries_iff entry] at car other
    split
    · rename_i feeds
      simp only [List.getElem?_map, List.getElem?_take_of_lt own, List.getElem?_drop, car feeds]
    · rename_i feedsNot
      simp only [List.getElem?_take_of_lt own, List.getElem?_drop, other feedsNot]
  · rw [List.getElem?_eq_none (by simp; omega), List.getElem?_eq_none (by split <;> simp <;> omega)]

end Script

/-! ## Where the count overflows -/

namespace Script

/-- Calls do not make the count overflow. -/
theorem Alike.countOverflows_iff {s t : Script} (alike : s.Alike t) :
    t.CountOverflows ↔ s.CountOverflows := by
  rw [CountOverflows, alike.code, alike.poolSize, CountOverflows]

/-- It overflows only behind a `halt`. -/
theorem CountOverflows.halt_mem {s : Script} (overflows : s.CountOverflows) : halt ∈ s.code := by
  by_contra noHalt
  obtain ⟨address, -, single, full⟩ := overflows
  rw [← live_eq_self noHalt] at single
  have inside := poolPosition_add_le single
  have counted : s.constants.length ≤ greatestCount s.constants.length := Nat.le_max_right ..
  simp only [poolUse] at inside
  omega

/-- Where it does not, it does not matter how numbers are added. -/
theorem constants_shiftCarIndicesBy_wrapping {s : Script} (fits : ¬ s.CountOverflows)
    (offset : Float) :
    (s.shiftCarIndicesBy .wrapping offset).constants = (s.shiftCarIndices offset).constants := by
  refine List.ext_getElem? fun k => ?_
  obtain ⟨car, other⟩ := getElem?_constants_shiftCarIndicesBy s offset (.inr fits) k
  obtain ⟨car', other'⟩ := getElem?_constants_shiftCarIndicesBy s offset (.inl rfl) k
  by_cases mem : k ∈ carEntries s.code
  · exact (car mem).trans (car' mem).symm
  · exact (other mem).trans (other' mem).symm

end Script

/-- **The four walks over the pool stay together,** as far as the script runs.

* The shift of car numbers and the listing are the walks of a cursor and of what is unread.
* When they come to an instruction in front of the first `halt`, the check, an evaluation, the shift
  and the listing are at one position in the pool, after any calls the same one. What an evaluation
  pushes there, with the next constant on top of those before it, the listing has there in this
  order.
* No entry of the pool belongs to two instructions.
* Calls change the numbers of cars, each by the offsets of the shifts one after the other, and no
  other entry, also if a shift stops; these are the entries of the instructions that feed a car
  number.
* Behind a `halt` the count of the shift may overflow. Then, and only then, a shift with checked
  arithmetic stops there. Without checks it goes on from the first constant, and shifts an entry as
  often as it comes to it at an instruction that feeds a car number; if the count does not overflow
  it does what the other one does. -/
theorem pool_walks_aligned {γ : Type} [WordSource γ] (s : Script) :
    (∀ arithmetic offset,
      s.shiftWalk arithmetic offset = s.shiftWalkTo arithmetic offset s.code.length) ∧
    (∀ print, Script.listingWith print s.code s.constants =
      " ".intercalate (listingWalk print s.code s.constants).words) ∧
    (∀ address i, (live s.code)[address]? = some i →
      let position := poolPosition s.code address
      position + i.poolUse ≤ s.constants.length ∧
      ((∀ j ∈ s.code.take address, j.isFatal = false) →
        ∀ (v : Viewpoint) (source : γ), ∃ p, s.Reaches v source address p) ∧
      ∀ calls : List (Call γ), (s.afterCalls calls).Aligned address position ∧
        ((i = .constant ∨ ∃ count, i = .constants count) →
          let share := (s.constants.drop position).take i.poolUse
          (s.afterCalls calls).Serves address i
            (if FeedsCar s.code address then share.map (carShift calls) else share))) ∧
    (∀ a b k, k ∈ poolEntries s.code a → k ∈ poolEntries s.code b → a = b) ∧
    (∀ address k, k ∈ poolEntries s.code address →
      (k ∈ carEntries s.code ↔ FeedsCar s.code address)) ∧
    (∀ (calls : List (Call γ)) (k : Nat),
      (k ∈ carEntries s.code →
        (s.afterCalls calls).constants[k]? = s.constants[k]?.map (carShift calls)) ∧
      (k ∉ carEntries s.code → (s.afterCalls calls).constants[k]? = s.constants[k]?)) ∧
    (s.CountOverflows → halt ∈ s.code) ∧
    ∀ (calls : List (Call γ)) (offset : Float),
      let t := s.afterCalls calls
      (t.shiftStops offset = true ↔ s.CountOverflows) ∧
      (∀ k, (t.shiftCarIndicesBy .wrapping offset).constants[k]? =
        t.constants[k]?.map (· + offset)^[t.timesShifted .wrapping offset k]) ∧
      (¬ s.CountOverflows →
        (t.shiftCarIndicesBy .wrapping offset).constants = (t.shiftCarIndices offset).constants) := by
  refine ⟨fun arithmetic offset => s.shiftWalk_eq arithmetic offset,
    fun print => listingWith_eq print s.code s.constants, fun address i hi => ?_,
    fun a b k => eq_of_mem_poolEntries, fun address k => mem_carEntries_iff,
    s.getElem?_constants_afterCalls, fun overflows => overflows.halt_mem, fun calls offset => ?_⟩
  · refine ⟨Script.poolPosition_add_le hi, fun goesOn v source => ?_, fun calls => ?_⟩
    · obtain ⟨p, reached, -⟩ := Script.exists_reaches hi goesOn v source
      exact ⟨p, reached⟩
    · have alike := s.alike_afterCalls calls
      have hi' : (live (s.afterCalls calls).code)[address]? = some i := alike.code ▸ hi
      have aligned := Script.aligned hi'
      rw [alike.code] at aligned
      refine ⟨aligned, fun push => ?_⟩
      have serves := Script.serves hi' push
      rwa [alike.code, Script.share_afterCalls (getElem?_of_live hi)] at serves
  · have overflows := (s.alike_afterCalls calls).countOverflows_iff
    refine ⟨(Script.shiftStops_iff ..).trans overflows,
      Script.getElem?_constants_shiftCarIndicesBy_eq .wrapping _ offset, fun fits => ?_⟩
    exact Script.constants_shiftCarIndicesBy_wrapping (mt overflows.mp fits) offset

/-- The speed of the last car, behind a block of no constants and in front of one of two. The object
is turned around twice, and the count behind the end moves nothing. -/
theorem pool_walks_aligned_last_car : ∃ s : Script,
    Script.ofCode [.constants 0, .constant, .queryAt (.car (.reading .speed)), .constants 2,
      .ternary .multiplyAdd, .halt, .constants (2 ^ 64 - 1)] [-1.0, 2.0, 3.0, 4.0] = .ok s ∧
    s.Aligned 3 1 ∧
      (s.afterCalls (γ := Stepper) [.shiftCarIndices 1.0, .shiftCarIndices 2.0]).Serves 1 .constant
        [-1.0 + 1.0 + 2.0] ∧
      (s.afterCalls (γ := Stepper) [.shiftCarIndices 1.0, .shiftCarIndices 2.0]).Serves 3
        (.constants 2) [2.0, 3.0] := by
  let s : Script := ⟨[.constants 0, .constant, .queryAt (.car (.reading .speed)), .constants 2,
    .ternary .multiplyAdd, .halt, .constants (2 ^ 64 - 1)],
    [-1.0, 2.0, 3.0, 4.0], ⟨[], 3⟩, 0.0, 3, Nat.le_refl 3, rfl⟩
  have walks := (pool_walks_aligned (γ := Stepper) s).2.2.1
  obtain ⟨-, -, feeding⟩ := walks 1 .constant rfl
  obtain ⟨-, -, block⟩ := walks 3 (.constants 2) rfl
  exact ⟨s, rfl, (block []).1, (feeding _).2 (.inl rfl), (block _).2 (.inr ⟨2, rfl⟩)⟩

/-- Behind the end, a block of as many constants as there can be and two single ones, the second of
them in front of an instruction that takes the number of a car. The shift stops at the first one, or
comes back to the only constant of the pool and shifts it again. -/
theorem pool_walks_part_behind_halt : ∃ s : Script,
    Script.ofCode [.constant, .queryAt (.car (.reading .speed)), .halt, .constants (2 ^ 64 - 1),
      .constant, .constant, .queryAt (.car (.reading .speed))] [1.0] = .ok s ∧
    s.shiftStops 2.0 = true ∧
      (s.shiftCarIndicesBy .wrapping 2.0).constants = [1.0 + 2.0 + 2.0] ∧
      (s.shiftCarIndicesBy .wrapping 2.0).constants[0]? ≠ s.constants[0]?.map (· + 2.0) := by
  let s : Script := ⟨[.constant, .queryAt (.car (.reading .speed)), .halt, .constants (2 ^ 64 - 1),
    .constant, .constant, .queryAt (.car (.reading .speed))], [1.0], ⟨[], 1⟩, 0.0, 1,
    Nat.le_refl 1, rfl⟩
  have twice : (s.shiftCarIndicesBy .wrapping 2.0).constants = [1.0 + 2.0 + 2.0] := rfl
  refine ⟨s, rfl, rfl, twice, ?_⟩
  rw [twice]
  decide

end CabScript
