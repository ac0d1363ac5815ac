import CabScript.Proofs.Replacement
import CabScript.Proofs.OperandLookup

/-!
# The element's own car, and the car with its number

What a script reads of the element's own car it can also read of the car that a number selects, with
the number of its own car: the number is the index of the car, and the index finds the car, or none
if there is no car at the index. So each query about the own car can be replaced by two instructions
that ask for the number and then for the car with this number, in any script and at any place of it.

## Main definitions

* `AsksByNumber`: instructions ask by number for what an instruction asks of the own car.

## Main statements

* `read_carNumber`: the two ways to ask have the same answer.
* `costsAs_asksByNumber`, `runsAs_asksByNumber`: so one can stand in place of the other.
* `own_car_by_number`: in any script and any evaluations.
-/

namespace CabScript

open Instruction

/-- Instructions are an instruction as it is, or ask by number for what it asks of the own car. -/
inductive AsksByNumber : Instruction → List Instruction → Prop where
  | same (i : Instruction) : AsksByNumber i [i]
  | byNumber (r : CarReading) :
    AsksByNumber (query (.ownCar r)) [query .carNumber, queryAt (.car (.reading r))]

/-- The element is on a train, of no more cars than there are numbers of 53 bits. The train may be
out of sight, and the car of the element may not be there. -/
structure Viewpoint.OnCountableTrain (v : Viewpoint) : Prop where
  isOnTrain : v.isOnTrain = true
  countable : ∀ train, v.train = some train → train.cars.length ≤ 2 ^ 53

/-! ## The answers -/

/-- The number of the element's car selects this car. -/
theorem Train.car?_ofNat {train : Train} (countable : train.cars.length ≤ 2 ^ 53) (index : Nat) :
    train.car? (Number.ofNat index) = train.cars[index]? :=
  Number.select?_ofNat countable index

/-- **A query about the car with the number of the own car** has the answer of a query about the own
car. -/
theorem read_carNumber {v : Viewpoint} (on : v.OnCountableTrain) (r : CarReading) :
    IndexedQuery.read v (Query.read v .carNumber) (.car (.reading r)) =
      Query.read v (.ownCar r) := by
  simp only [IndexedQuery.read, Query.read, CarQuery.read, Viewpoint.carNumber, on.isOnTrain,
    if_true, Viewpoint.carOrZero, Viewpoint.trainOrZero, Viewpoint.ownCarOrZero, Viewpoint.ownCar?]
  cases seen : v.train with
  | none => rfl
  | some train => simp only [Option.map_some, Option.getD_some, Option.bind_some,
      Train.car?_ofNat (on.countable train seen)]

/-! ## The check -/

/-- Where a value is on the stack, a query with an operand changes nothing that the check counts. -/
theorem Budget.spend_queryAt {b : Budget} (pos : 0 < b.depth) (deep : b.depth ≤ b.deepest)
    (limit : b.depth < Budget.depthLimit) (address : Nat) (q : IndexedQuery) :
    b.spend address (queryAt q) = .ok b := by
  obtain ⟨depth, unread, deepest⟩ := b
  apply Budget.spend_eq_ok_iff.mpr
  have back : depth - 1 + 1 = depth := Nat.sub_add_cancel pos
  refine ⟨Nat.zero_le _, pos, ?_, ?_⟩
  · simpa only [Budget.after, pops, pushes, back] using limit
  · simp only [Budget.after, pops, pushes, poolUse, back, Nat.sub_zero, Nat.max_eq_left deep]

/-- **Asking by number costs what asking costs.** -/
theorem costsAs_asksByNumber {i : Instruction} {l : List Instruction} (asks : AsksByNumber i l) :
    i.CostsAs l := by
  cases asks with
  | same => exact .self i
  | byNumber r =>
    refine ⟨by simp, by simp, by simp [isFatal], ?_, ?_⟩
    · intro b b' address deep spent address'
      have limit : b'.depth < Budget.depthLimit := by
        obtain ⟨-, -, limit, rfl⟩ := Budget.spend_eq_ok_iff.mp spent
        exact limit
      have pos : 0 < b'.depth := by
        obtain ⟨-, -, -, rfl⟩ := Budget.spend_eq_ok_iff.mp spent
        exact Nat.succ_pos _
      -- both queries push one value, and the second instruction replaces it
      have first : b.spend address' (query .carNumber) = .ok b' :=
        Budget.spend_address spent address'
      rw [Budget.spendAll, first]
      simp only
      rw [Budget.spendAll_singleton]
      exact Budget.spend_queryAt pos (Budget.depth_le_deepest_of_spend spent) limit _ _
    · intro b e address _ _ refused address'
      have first : b.spend address (query .carNumber) = .error e := refused
      obtain ⟨e', refused', cause⟩ := Budget.exists_spend_error first address'
      refine ⟨e', ?_, cause⟩
      rw [Budget.spendAll, refused']

/-! ## Runs -/

section Run

variable {γ : Type} [WordSource γ]

/-- **Asking by number does what asking does.** -/
theorem runsAs_asksByNumber {i : Instruction} {l : List Instruction} (asks : AsksByNumber i l)
    {v : Viewpoint} (on : v.OnCountableTrain) (x : Float) : i.RunsAs γ ⟨v, x⟩ l := by
  cases asks with
  | same => exact .self _ i
  | byNumber r =>
    intro address p p' stepped address'
    obtain ⟨⟨values, _ | room⟩, unread, source⟩ := p
    · cases stepped
    · have ran : run ⟨v, x⟩ address' [query .carNumber, queryAt (.car (.reading r))]
          ⟨⟨values, room + 1⟩, unread, source⟩ =
            ⟨none, ⟨⟨IndexedQuery.read v (Query.read v .carNumber) (.car (.reading r)) :: values,
              room⟩, unread, source⟩⟩ := rfl
      cases stepped
      rw [ran, read_carNumber on]

end Run

/-- **What is asked of the own car can be asked by number,** in any script. Let code ask by number
at any places where other code asks for the own car.

* If the other code makes a script, so does this code, with the same capacity, also where a capacity
  is asked for.
* From equal last results on the two scripts show the same in any evaluations for elements that are
  on a train, wherever they are and whether or not the train is in sight: the same results, stacks
  and sources, and for an error the same cause at the address where the instruction stands then. -/
theorem own_car_by_number {γ : Type} [WordSource γ] {code : List Instruction}
    {parts : List (List Instruction)} (asks : List.Forall₂ AsksByNumber code parts) :
    (∀ constants s, Script.ofCode code constants = .ok s →
      ∃ t, Script.ofCode parts.flatten constants = .ok t ∧
        t.stack.capacity = s.stack.capacity) ∧
    (∀ constants capacity s, Script.ofCodeWithCapacity code constants capacity = .ok s →
      ∃ t, Script.ofCodeWithCapacity parts.flatten constants capacity = .ok t ∧
        t.stack.capacity = s.stack.capacity) ∧
    ∀ s t : Script, s.code = code → t.code = parts.flatten → t.constants = s.constants →
      t.lastResult = s.lastResult →
        ∀ (source : γ) (requests : List (Request γ)),
          (∀ offset, .shiftCarIndices offset ∉ requests) →
          (∀ v own, .evaluate v own ∈ requests → v.OnCountableTrain) →
            t.session source requests =
              (s.session source requests).map (Observation.readdress (replacedAddress parts)) := by
  have costs : List.Forall₂ CostsAs code parts := asks.imp fun _ _ => costsAs_asksByNumber
  refine ⟨fun constants s made => Script.exists_ofCode_flatten costs made,
    fun constants capacity s made => Script.exists_ofCodeWithCapacity_flatten costs made, ?_⟩
  intro s t hs ht constants last source requests unturned onTrain
  subst hs
  apply Script.session_flatten costs ht constants last unturned
  intro v own asked x
  exact asks.imp fun _ _ each => runsAs_asksByNumber each (onTrain v own asked) x

/-- The difference of two speeds of the own car, one of them asked for by number: in the last of two
cars, and in a car that is not there. -/
theorem own_car_by_number_behind_the_end :
    List.Forall₂ AsksByNumber
      [query (.ownCar .speed), query (.ownCar .shownSpeed), binary .subtract]
      [[query (.ownCar .speed)], [query .carNumber, queryAt (.car (.reading .shownSpeed))],
        [binary .subtract]] ∧
    ∃ s t,
      Script.ofCode [query (.ownCar .speed), query (.ownCar .shownSpeed), binary .subtract] [] =
        .ok s ∧
      Script.ofCode [query (.ownCar .speed), query .carNumber,
        queryAt (.car (.reading .shownSpeed)), binary .subtract] [] = .ok t ∧
      ∀ first last : Car, ∀ index ∈ [1, 2 ^ 64 - 1],
        (Viewpoint.onCar (.ofWorld {}) { cars := [first, last] } index).OnCountableTrain ∧
        t.session (Stepper.mk 0 1)
            [.evaluate (.onCar (.ofWorld {}) { cars := [first, last] } index) none] =
          (s.session (Stepper.mk 0 1)
            [.evaluate (.onCar (.ofWorld {}) { cars := [first, last] } index) none]).map
            (Observation.readdress (replacedAddress [[query (.ownCar .speed)],
              [query .carNumber, queryAt (.car (.reading .shownSpeed))], [binary .subtract]])) := by
  let code : List Instruction :=
    [query (.ownCar .speed), query (.ownCar .shownSpeed), binary .subtract]
  let code' : List Instruction := [query (.ownCar .speed), query .carNumber,
    queryAt (.car (.reading .shownSpeed)), binary .subtract]
  let s : Script := ⟨code, [], ⟨[], 2⟩, 0.0, 2, Nat.le_refl 2, rfl⟩
  let t : Script := ⟨code', [], ⟨[], 2⟩, 0.0, 2, Nat.le_refl 2, rfl⟩
  have asks : List.Forall₂ AsksByNumber code
      [[query (.ownCar .speed)], [query .carNumber, queryAt (.car (.reading .shownSpeed))],
        [binary .subtract]] :=
    .cons (.same _) (.cons (.byNumber _) (.cons (.same _) .nil))
  refine ⟨asks, s, t, rfl, rfl, fun first last index _ => ?_⟩
  have on : (Viewpoint.onCar (.ofWorld {}) { cars := [first, last] } index).OnCountableTrain := by
    refine ⟨rfl, fun train seen => ?_⟩
    cases seen
    exact show 2 ≤ 2 ^ 53 by decide
  refine ⟨on, ?_⟩
  apply (own_car_by_number (γ := Stepper) asks).2.2 s t rfl rfl rfl rfl
  · simp
  · intro v own asked
    cases List.mem_singleton.mp asked
    exact on

end CabScript
