import CabScript.Instruction.Query
import CabScript.Proofs.NumberOrder
import CabScript.Proofs.OperandLookup

/-!
# A train and its cars

What a script reads of a train as a whole it can also find out from the cars one by one. The doors
of a train are open as far as those of the car where they are open farthest: the readings go over
the doors of each car, then over the cars, and keep the greatest opening above zero. What such a
search finds is fixed by the openings alone, whatever their order and however they are grouped, even
if some of them are negative or NaN.

## Main definitions

* `IsGreatestOpening`: the greatest of some openings, and zero if none of them is above it.
* `Train.readAt`: what is read of the car at a place.

## Main statements

* `isGreatestOpening`, `IsGreatestOpening.unique`: the search finds the greatest opening.
* `greatestOpening_flatten`: it can be made group by group.
* `train_wide_reads`: the readings of a train, from those of its cars.
-/

namespace CabScript

/-! ## The greatest opening -/

/-- A number is the greatest of some openings, or zero if none of them is above zero. -/
structure IsGreatestOpening (openings : List Float) (greatest : Float) : Prop where
  reached : greatest = 0.0 ∨ greatest ∈ openings ∧ 0.0 < greatest
  bounds : ∀ opening ∈ openings, ¬ greatest < opening

namespace IsGreatestOpening

variable {openings openings' : List Float} {greatest greatest' : Float}

theorem nonneg (h : IsGreatestOpening openings greatest) : 0.0 ≤ greatest := by
  rcases h.reached with rfl | ⟨-, above⟩
  · exact Number.le_self rfl
  · exact Number.le_of_lt above

theorem isNaN_eq_false (h : IsGreatestOpening openings greatest) : greatest.isNaN = false :=
  (Number.le_iff.mp h.nonneg).2.1

/-- **There is only one greatest opening,** and what it is depends on nothing but which openings
there are. -/
theorem unique (h : IsGreatestOpening openings greatest)
    (h' : IsGreatestOpening openings' greatest') (same : ∀ x, x ∈ openings ↔ x ∈ openings') :
    greatest = greatest' := by
  rcases h.reached with rfl | ⟨mem, above⟩ <;> rcases h'.reached with rfl | ⟨mem', above'⟩
  · rfl
  · exact absurd above' (h.bounds _ ((same _).mpr mem'))
  · exact absurd above (h'.bounds _ ((same _).mp mem))
  · apply Number.eq_of_not_lt above above'
    · exact h.bounds _ ((same _).mpr mem')
    · exact h'.bounds _ ((same _).mp mem)

/-- One more opening is the greatest one if it is above all others. -/
theorem snoc (h : IsGreatestOpening openings greatest) (opening : Float) :
    IsGreatestOpening (openings ++ [opening])
      (if opening > greatest then opening else greatest) := by
  split
  · rename_i above
    refine ⟨.inr ⟨by simp, Number.lt_of_le_of_lt h.nonneg above⟩, ?_⟩
    refine List.forall_mem_append.mpr ⟨?_, by simpa using Number.lt_irrefl opening⟩
    intro other mem less
    exact h.bounds other mem (Number.lt_of_le_of_lt (Number.le_of_lt above) less)
  · rename_i notAbove
    refine ⟨h.reached.imp_right (And.imp_left (List.mem_append_left _)), ?_⟩
    exact List.forall_mem_append.mpr ⟨h.bounds, by simpa using notAbove⟩

/-- The greatest of two rows of openings is the greater one of their greatest ones. -/
theorem append (h : IsGreatestOpening openings greatest)
    (h' : IsGreatestOpening openings' greatest') :
    IsGreatestOpening (openings ++ openings') (Number.max greatest greatest') := by
  unfold Number.max
  split
  · rename_i less
    refine ⟨h.reached.imp_right (And.imp_left (List.mem_append_left _)), ?_⟩
    refine List.forall_mem_append.mpr ⟨h.bounds, ?_⟩
    intro opening mem
    apply Number.not_lt_trans h'.isNaN_eq_false _ (h'.bounds opening mem)
    exact Number.not_lt_of_le (Number.le_of_lt less)
  · rename_i notLess
    refine ⟨h'.reached.imp_right (And.imp_left (List.mem_append_right _)), ?_⟩
    refine List.forall_mem_append.mpr ⟨?_, h'.bounds⟩
    intro opening mem
    exact Number.not_lt_trans h.isNaN_eq_false notLess (h.bounds opening mem)

end IsGreatestOpening

/-- **The search finds the greatest opening.** -/
theorem isGreatestOpening (openings : List Float) :
    IsGreatestOpening openings (greatestOpening openings) := by
  induction openings using List.reverseRecOn with
  | nil => exact ⟨.inl rfl, by simp⟩
  | append_singleton openings opening ih =>
    rw [greatestOpening, List.foldl_append]
    exact ih.snoc opening

/-- It can be made group by group. -/
theorem greatestOpening_flatten (groups : List (List Float)) :
    greatestOpening (groups.map greatestOpening) = greatestOpening groups.flatten := by
  have whole := isGreatestOpening (groups.map greatestOpening)
  have nested :
      IsGreatestOpening groups.flatten (greatestOpening (groups.map greatestOpening)) := by
    constructor
    · rcases whole.reached with zero | ⟨mem, above⟩
      · exact .inl zero
      · obtain ⟨group, inGroups, same⟩ := List.mem_map.mp mem
        rw [← same]
        rcases (isGreatestOpening group).reached with zero | ⟨inGroup, above⟩
        · exact .inl zero
        · exact .inr ⟨List.mem_flatten_of_mem inGroups inGroup, above⟩
    · intro opening mem
      obtain ⟨group, inGroups, inGroup⟩ := List.mem_flatten.mp mem
      have ofGroup := isGreatestOpening group
      apply Number.not_lt_trans ofGroup.isNaN_eq_false
      · exact whole.bounds _ (List.mem_map_of_mem inGroups)
      · exact ofGroup.bounds opening inGroup
  exact nested.unique (isGreatestOpening _) fun _ => Iff.rfl

/-! ## The doors of a train -/

namespace Train

variable {train : Train}

/-- How far the doors on a side, or on both sides, are open, car by car. -/
def openings (train : Train) (side : Option Side) : List Float :=
  train.cars.flatMap fun car => (car.doors side).map Door.opening

theorem isGreatestOpening_doorOpening (train : Train) (side : Option Side) :
    IsGreatestOpening (train.openings side) (train.doorOpening side) := by
  have nested : train.doorOpening side = greatestOpening (train.openings side) := by
    rw [openings, List.flatMap_def, ← greatestOpening_flatten, List.map_map]
    rfl
  rw [nested]
  exact isGreatestOpening _

/-- Both sides together have the openings of the left and of the right. -/
theorem mem_openings_none (x : Float) :
    x ∈ train.openings none ↔ x ∈ train.openings (some .left) ++ train.openings (some .right) := by
  simp only [openings, List.mem_append, List.mem_flatMap, Car.doors, Car.door, List.map_cons,
    List.map_nil, List.mem_cons, List.not_mem_nil, or_false, ← exists_or, ← and_or_left]

/-- **Both sides together are open as far as the side that is open farther.** -/
theorem doorOpening_none (train : Train) :
    train.doorOpening none =
      Number.max (train.doorOpening (some .left)) (train.doorOpening (some .right)) := by
  have left := train.isGreatestOpening_doorOpening (some .left)
  have right := train.isGreatestOpening_doorOpening (some .right)
  exact (train.isGreatestOpening_doorOpening none).unique (left.append right) mem_openings_none

/-- No car's doors are open farther than those of the train. -/
theorem doorOpening_le {car : Car} (mem : car ∈ train.cars) (side : Option Side) :
    car.doorOpening side ≤ train.doorOpening side := by
  have whole := isGreatestOpening (train.cars.map (Car.doorOpening · side))
  have ofCar := isGreatestOpening ((car.doors side).map Door.opening)
  apply (Number.not_lt_iff whole.isNaN_eq_false ofCar.isNaN_eq_false).mp
  exact whole.bounds _ (List.mem_map_of_mem mem)

/-- The order of the cars does not matter. -/
theorem doorOpening_perm {cars : List Car} (perm : cars.Perm train.cars) (side : Option Side) :
    doorOpening { train with cars } side = train.doorOpening side := by
  apply (isGreatestOpening _).unique (isGreatestOpening _)
  intro x
  exact (perm.map _).mem_iff

end Train

/-! ## The cars one by one -/

/-- A truth value is read as one exactly if it is true. -/
theorem Number.ofBool_eq_one_iff {b : Bool} : Number.ofBool b = 1.0 ↔ b = true := by
  cases b with
  | false => exact iff_of_false (by decide) Bool.false_ne_true
  | true => exact iff_of_true rfl rfl

/-- What is read of the car at a place, counted from the front, and zero if there is none. -/
def Train.readAt (train : Train) (v : Viewpoint) (q : CarQuery) (place : Nat) : Float :=
  (train.cars[place]?.map (q.read v train)).getD 0.0

section ReadAt

variable {v : Viewpoint} {train : Train} {q : CarQuery} {place : Nat}

theorem Train.readAt_of_getElem? {car : Car} (found : train.cars[place]? = some car) :
    train.readAt v q place = q.read v train car := by
  rw [readAt, found, Option.map_some, Option.getD_some]

/-- Every car of the train is at some place. -/
theorem Train.exists_place {car : Car} (mem : car ∈ train.cars) (v : Viewpoint) :
    ∃ place < train.cars.length, ∀ q : CarQuery, train.readAt v q place = q.read v train car := by
  obtain ⟨place, short, here⟩ := List.getElem_of_mem mem
  refine ⟨place, short, fun q => ?_⟩
  exact readAt_of_getElem? (List.getElem?_eq_some_iff.mpr ⟨short, here⟩)

theorem read_car (seen : v.train = some train) (x : Float) (q : CarQuery) :
    IndexedQuery.read v x (.car q) = ((train.car? x).map (q.read v train)).getD 0.0 := by
  rw [IndexedQuery.read, Viewpoint.carOrZero, Viewpoint.trainOrZero, seen]
  rfl

/-- A query with a number reads the car at the place of this number. -/
theorem read_car_ofNat (seen : v.train = some train) (short : place < 2 ^ 53) (q : CarQuery) :
    IndexedQuery.read v (Number.ofNat place) (.car q) = train.readAt v q place := by
  rw [read_car seen, Train.car?, Number.select?_ofNat_of_lt short]
  rfl

theorem read_train (seen : v.train = some train) (q : TrainQuery) :
    Query.read v (.train q) = q.read v train := by
  rw [Query.read, Viewpoint.trainOrZero, seen]
  rfl

end ReadAt

namespace Train

variable {train : Train}

/-- What is read of the doors of a car by number is not above what is read of the train, -/
theorem readAt_doors_le (v : Viewpoint) (side : Option Side) (place : Nat) :
    train.readAt v (.doors side) place ≤ train.doorOpening side := by
  cases found : train.cars[place]? with
  | none =>
    rw [readAt, found]
    exact (train.isGreatestOpening_doorOpening side).nonneg
  | some car =>
    rw [readAt_of_getElem? found]
    exact doorOpening_le (List.mem_of_getElem? found) side

/-- whatever selects the car. -/
theorem doors_le {v : Viewpoint} (seen : v.train = some train) (side : Option Side) (x : Float) :
    IndexedQuery.read v x (.car (.doors side)) ≤ train.doorOpening side := by
  rw [read_car seen]
  cases found : train.car? x with
  | none => exact (train.isGreatestOpening_doorOpening side).nonneg
  | some car => exact doorOpening_le (Number.mem_of_select? found) side

/-- If any doors are open, those of some car are open as far as those of the train. -/
theorem exists_readAt_doors (v : Viewpoint) (side : Option Side) :
    train.doorOpening side = 0.0 ∨
      ∃ place < train.cars.length, train.doorOpening side = train.readAt v (.doors side) place := by
  rcases (isGreatestOpening (train.cars.map (Car.doorOpening · side))).reached with zero | ⟨mem, -⟩
  · exact .inl zero
  · obtain ⟨car, mem, same⟩ := List.mem_map.mp mem
    obtain ⟨place, short, read⟩ := exists_place mem v
    exact .inr ⟨place, short, same.symm.trans (read (.doors side)).symm⟩

/-- Doors are expected to open at the next stop if those of some car are. -/
theorem doorsWillOpen_iff (v : Viewpoint) (side : Side) :
    Number.ofBool (train.doorsWillOpen side) = 1.0 ↔
      ∃ place < train.cars.length, train.readAt v (.doorTarget side) place = 1.0 := by
  rw [Number.ofBool_eq_one_iff, doorsWillOpen, List.any_eq_true]
  constructor
  · rintro ⟨car, mem, willOpen⟩
    obtain ⟨place, short, read⟩ := exists_place mem v
    exact ⟨place, short, (read (.doorTarget side)).trans (Number.ofBool_eq_one_iff.mpr willOpen)⟩
  · rintro ⟨place, short, one⟩
    rw [readAt_of_getElem? (List.getElem?_eq_getElem short)] at one
    exact ⟨train.cars[place], List.getElem_mem short, Number.ofBool_eq_one_iff.mp one⟩

/-- The first motor car speaks for the train, -/
theorem motorAcceleration_of_first (v : Viewpoint) {place : Nat} {car : Car}
    (found : train.cars[place]? = some car) (motor : car.isMotorCar = true)
    (first : ∀ before < place, ∀ other, train.cars[before]? = some other →
      other.isMotorCar = false) :
    train.motorAcceleration = train.readAt v .motorAcceleration place := by
  obtain ⟨short, here⟩ := List.getElem?_eq_some_iff.mp found
  have finds : train.cars.find? Car.isMotorCar = some car := by
    apply List.find?_eq_some_iff_getElem.mpr
    refine ⟨motor, place, short, here, fun before less => ?_⟩
    rw [first before less _ (List.getElem?_eq_getElem (less.trans short))]
    rfl
  rw [motorAcceleration, finds, readAt_of_getElem? found]
  rfl

/-- and none does if there is no motor car. -/
theorem motorAcceleration_of_none (none : ∀ car ∈ train.cars, car.isMotorCar = false) :
    train.motorAcceleration = 0.0 := by
  have finds : train.cars.find? Car.isMotorCar = .none := by
    apply List.find?_eq_none.mpr
    intro car mem motor
    rw [none car mem] at motor
    cases motor
  rw [motorAcceleration, finds]

end Train

/-- **What is read of a train as a whole** is what is read of its cars one by one. Let an element
see a train of any cars.

* A query with the number of a place reads what is read of the car there.
* For the doors on both sides together, on the left and on the right: no car's doors are read as
  open farther than those of the train, whatever selects the car. What is read of the train is zero
  or what is read of some car, neither NaN nor negative, and the same for the cars in any order.
* Both sides together are read as the greater one of the left and the right.
* Doors are read as expected to open if those of some car are.
* The acceleration by the motor is that of the first motor car, and zero without one. -/
theorem train_wide_reads (v : Viewpoint) (train : Train) (seen : v.train = some train) :
    (∀ place < 2 ^ 53, ∀ q,
      IndexedQuery.read v (Number.ofNat place) (.car q) = train.readAt v q place) ∧
    (∀ side,
      let whole := Query.read v (.train (.doors side))
      (∀ place, train.readAt v (.doors side) place ≤ whole) ∧
      (∀ x, IndexedQuery.read v x (.car (.doors side)) ≤ whole) ∧
      (whole = 0.0 ∨ ∃ place < train.cars.length, whole = train.readAt v (.doors side) place) ∧
      whole.isNaN = false ∧ ¬ whole < 0.0 ∧
      ∀ cars : List Car, cars.Perm train.cars →
        Query.read { v with train := some { train with cars } } (.train (.doors side)) = whole) ∧
    Query.read v (.train (.doors none)) =
      Number.max (Query.read v (.train (.doors (some .left))))
        (Query.read v (.train (.doors (some .right)))) ∧
    (∀ side, Query.read v (.train (.doorTarget side)) = 1.0 ↔
      ∃ place < train.cars.length, train.readAt v (.doorTarget side) place = 1.0) ∧
    (∀ place car, train.cars[place]? = some car → car.isMotorCar = true →
      (∀ before < place, ∀ other, train.cars[before]? = some other → other.isMotorCar = false) →
        Query.read v (.train .motorAcceleration) = train.readAt v .motorAcceleration place) ∧
    ((∀ car ∈ train.cars, car.isMotorCar = false) →
      Query.read v (.train .motorAcceleration) = 0.0) := by
  simp only [read_train seen, TrainQuery.read]
  refine ⟨fun place short q => read_car_ofNat seen short q, fun side => ?_, train.doorOpening_none,
    fun side => Train.doorsWillOpen_iff v side, ?_, Train.motorAcceleration_of_none⟩
  · have whole := train.isGreatestOpening_doorOpening side
    refine ⟨Train.readAt_doors_le v side, Train.doors_le seen side,
      Train.exists_readAt_doors v side, whole.isNaN_eq_false, Number.not_lt_of_le whole.nonneg, ?_⟩
    intro cars perm
    exact Train.doorOpening_perm perm side
  · intro place car found motor first
    exact Train.motorAcceleration_of_first v found motor first

/-- The doors of the first of three cars are no number on the left and negative on the right, and
the last two cars have motors. -/
theorem train_wide_reads_second_car : ∃ (train : Train) (v : Viewpoint),
    train.cars =
      [{ leftDoor := { opening := 0.0 / 0.0 }, rightDoor := { opening := -1.0 } },
        { leftDoor := { opening := 0.25 }, rightDoor := { opening := 0.5, willOpen := true },
          isMotorCar := true },
        { isMotorCar := true }] ∧
    v.train = some train ∧
    Query.read v (.train (.doors none)) = 0.5 ∧
    (∀ x, IndexedQuery.read v x (.car (.doors none)) ≤ 0.5) ∧
    Query.read v (.train (.doorTarget .right)) = 1.0 ∧
    Query.read v (.train .motorAcceleration) =
      IndexedQuery.read v (Number.ofNat 1) (.car .motorAcceleration) := by
  let train : Train := { cars :=
    [{ leftDoor := { opening := 0.0 / 0.0 }, rightDoor := { opening := -1.0 } },
      { leftDoor := { opening := 0.25 }, rightDoor := { opening := 0.5, willOpen := true },
        isMotorCar := true },
      { isMotorCar := true }] }
  let v : Viewpoint := (Viewpoint.ofWorld {}).beside train
  obtain ⟨byNumber, doors, -, targets, first, -⟩ := train_wide_reads v train rfl
  have half : Query.read v (.train (.doors none)) = 0.5 := by decide +kernel
  refine ⟨train, v, rfl, rfl, half, ?_, (targets .right).mpr ⟨1, by decide, rfl⟩, ?_⟩
  · intro x
    rw [← half]
    exact (doors none).2.1 x
  · rw [byNumber 1 (by decide)]
    apply first 1 _ rfl rfl
    intro before less other found
    obtain rfl : before = 0 := Nat.lt_one_iff.mp less
    cases found
    rfl

end CabScript
