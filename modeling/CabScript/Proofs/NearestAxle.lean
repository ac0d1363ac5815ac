import CabScript.Proofs.NumberSign
import CabScript.Rolling.Train

/-!
# The nearest axle of a train

The distance from a point to a train is the root of a squared distance that is found in one pass
over the axles, from the front of the train to its rear. While all squared distances are numbers the
least one is found, and the order of the axles does not matter. A squared distance that is no number
takes the place of what has been found before, and gives it up to the next one: of all axles only
those behind the last one of this kind count.

## Main definitions

* `IsLeastSq`: the number is the least of some squared distances.
* `Rearranged`: the cars in any order, any of them with its axles exchanged.

## Main statements

* `Train.leastSq_append_of_isNaN`: what is in front of a squared distance that is no number is
  forgotten.
* `Train.exists_isLeastSq`: the least one of numbers is found.
* `distance_to_counted_axles`: which axle the distance is that of, and when the order matters.
-/

namespace CabScript

/-- The number is one of these squared distances, and none of them is below it. -/
structure IsLeastSq (ds : List Float) (n : Float) : Prop where
  mem : n ∈ ds
  le : ∀ d ∈ ds, n ≤ d

namespace IsLeastSq

variable {ds ds' : List Float} {d n n' : Float}

theorem singleton (number : d.isNaN = false) : IsLeastSq [d] d where
  mem := List.mem_singleton_self d
  le other mem := by
    obtain rfl := List.mem_singleton.mp mem
    exact Number.le_self number

theorem isNaN_eq_false (least : IsLeastSq ds n) : n.isNaN = false :=
  (Number.le_iff.mp (least.le n least.mem)).1

/-- The lesser one of the least number and another one is the least one of all. -/
theorem concat (least : IsLeastSq ds n) (number : d.isNaN = false) :
    ∃ n', Train.lesser (some n) d = some n' ∧ IsLeastSq (ds ++ [d]) n' := by
  by_cases le : n ≤ d
  · refine ⟨n, if_pos le, List.mem_append_left _ least.mem, ?_⟩
    exact List.forall_mem_append.mpr ⟨least.le, by simpa using le⟩
  · have below : d ≤ n := by
      apply Number.le_of_lt
      exact not_not.mp (mt (Number.not_lt_iff number least.isNaN_eq_false).mp le)
    refine ⟨d, if_neg le, by simp, ?_⟩
    refine List.forall_mem_append.mpr ⟨fun other mem => ?_, by simpa using Number.le_self number⟩
    exact Number.le_trans below (least.le other mem)

/-- There is one least squared distance, however they are ordered. -/
theorem unique (least : IsLeastSq ds n) (least' : IsLeastSq ds' n') (perm : ds.Perm ds')
    (plus : ∀ d ∈ ds, Number.IsPlus d.toModel.unpack) : n = n' := by
  have mem := perm.mem_iff.mp least.mem
  have mem' := perm.mem_iff.mpr least'.mem
  exact Number.eq_of_isPlus (plus n least.mem) (plus n' mem') (least.le n' mem') (least'.le n mem)

end IsLeastSq

namespace Train

variable {t : Train} {p : Point} {before after ds : List Float} {d n : Float}

/-! ## One step and a whole pass -/

theorem leastSq_concat (ds : List Float) (d : Float) :
    leastSq (ds ++ [d]) = lesser (leastSq ds) d :=
  List.foldl_append

/-- What is found is found among those that were looked at. -/
theorem lesser_eq_or (least : Option Float) (d : Float) :
    lesser least d = least ∨ lesser least d = some d := by
  cases least with
  | none => exact .inr rfl
  | some n =>
    simp only [lesser]
    split_ifs
    · exact .inl rfl
    · exact .inr rfl

/-- Something is found, and it is a number if the last one looked at is. -/
theorem exists_lesser_eq (least : Option Float) (number : d.isNaN = false) :
    ∃ n, lesser least d = some n ∧ n.isNaN = false := by
  cases least with
  | none => exact ⟨d, rfl, number⟩
  | some n =>
    simp only [lesser]
    split_ifs with le
    · exact ⟨n, rfl, (Number.le_iff.mp le).1⟩
    · exact ⟨d, rfl, number⟩

theorem mem_of_leastSq (found : leastSq ds = some n) : n ∈ ds := by
  induction ds using List.reverseRecOn with
  | nil => cases found
  | append_singleton ds d ih =>
    rw [leastSq_concat] at found
    rcases lesser_eq_or (leastSq ds) d with kept | replaced
    · exact List.mem_append_left _ (ih (kept.symm.trans found))
    · obtain rfl : d = n := Option.some.inj (replaced.symm.trans found)
      simp

/-- Nothing is at most a NaN, so it replaces whatever has been found. -/
theorem lesser_of_isNaN (nan : d.isNaN = true) (least : Option Float) :
    lesser least d = some d := by
  cases least with
  | none => rfl
  | some n =>
    apply if_neg
    intro le
    obtain ⟨-, number, -⟩ := Number.le_iff.mp le
    rw [nan] at number
    cases number

/-- A NaN is at most nothing, so it is replaced as if nothing had been found. -/
theorem lesser_some_of_isNaN (nan : n.isNaN = true) (d : Float) :
    lesser (some n) d = lesser none d := by
  apply if_neg
  intro le
  obtain ⟨number, -, -⟩ := Number.le_iff.mp le
  rw [nan] at number
  cases number

theorem leastSq_concat_of_isNaN (nan : d.isNaN = true) (before : List Float) :
    leastSq (before ++ [d]) = some d :=
  (leastSq_concat before d).trans (lesser_of_isNaN nan _)

/-- **What is in front of a NaN is forgotten,** as soon as there is anything behind it. -/
theorem leastSq_append_of_isNaN (nan : d.isNaN = true) (before : List Float)
    (behind : after ≠ []) : leastSq (before ++ d :: after) = leastSq after := by
  obtain ⟨first, rest, rfl⟩ := List.exists_cons_of_ne_nil behind
  have reached : before.foldl lesser none = leastSq before := rfl
  rw [leastSq, List.foldl_append, reached, List.foldl_cons, lesser_of_isNaN nan, List.foldl_cons,
    lesser_some_of_isNaN nan]
  rfl

/-! ## The least one of numbers -/

/-- **The least one of numbers is found.** -/
theorem exists_isLeastSq (numbers : ∀ d ∈ ds, d.isNaN = false) (nonempty : ds ≠ []) :
    ∃ n, leastSq ds = some n ∧ IsLeastSq ds n := by
  induction ds using List.reverseRecOn with
  | nil => exact absurd rfl nonempty
  | append_singleton ds d ih =>
    have number : d.isNaN = false := numbers d (by simp)
    rw [leastSq_concat]
    rcases eq_or_ne ds [] with rfl | nonempty'
    · exact ⟨d, rfl, .singleton number⟩
    · have numbers' : ∀ d ∈ ds, d.isNaN = false := fun d mem =>
        numbers d (List.mem_append_left _ mem)
      obtain ⟨n, found, least⟩ := ih numbers' nonempty'
      rw [found]
      exact least.concat number

/-! ## Distances -/

/-- What is found is squared. -/
theorem distance_of_leastSq (found : leastSq (t.axleDistancesSq p) = some n) :
    t.distance p = n.sqrt := by
  rw [distance, found]

theorem isPlus_of_mem (mem : d ∈ t.axleDistancesSq p) : Number.IsPlus d.toModel.unpack := by
  obtain ⟨car, -, ofCar⟩ := List.mem_flatMap.mp mem
  rcases List.mem_pair.mp ofCar with rfl | rfl <;> exact Point.isPlus_normSq _

/-- There are axles as soon as there is a car. -/
theorem axleDistancesSq_ne_nil (hasCar : t.cars ≠ []) : t.axleDistancesSq p ≠ [] := by
  obtain ⟨car, rest, cars⟩ := List.exists_cons_of_ne_nil hasCar
  rw [axleDistancesSq, cars, List.flatMap_cons]
  exact List.cons_ne_nil _ _

/-- Without a car the distance is zero. -/
theorem distance_of_nil (noCar : t.cars = []) (p : Point) : t.distance p = 0.0 := by
  rw [distance, axleDistancesSq, noCar]
  rfl

/-- **Where all squared distances are numbers,** the distance is that of a nearest axle. -/
theorem exists_distance_eq (hasCar : t.cars ≠ [])
    (numbers : ∀ d ∈ t.axleDistancesSq p, d.isNaN = false) :
    ∃ n, IsLeastSq (t.axleDistancesSq p) n ∧ t.distance p = n.sqrt := by
  obtain ⟨n, found, least⟩ := exists_isLeastSq numbers (axleDistancesSq_ne_nil hasCar)
  exact ⟨n, least, distance_of_leastSq found⟩

/-- Where the last one is no number, neither is the distance. -/
theorem isNaN_distance (last : t.axleDistancesSq p = before ++ [d]) (nan : d.isNaN = true) :
    (t.distance p).isNaN = true := by
  rw [distance_of_leastSq (last ▸ leastSq_concat_of_isNaN nan before)]
  exact Number.isNaN_sqrt_of_isNaN nan

theorem isNaN_distance_of_forall (hasCar : t.cars ≠ [])
    (nans : ∀ d ∈ t.axleDistancesSq p, d.isNaN = true) : (t.distance p).isNaN = true := by
  have split := List.dropLast_concat_getLast (axleDistancesSq_ne_nil (p := p) hasCar)
  exact isNaN_distance split.symm (nans _ (List.getLast_mem _))

/-- Where the last one is a number, so is the distance. -/
theorem isNaN_distance_eq_false (last : t.axleDistancesSq p = before ++ [d])
    (number : d.isNaN = false) : (t.distance p).isNaN = false := by
  obtain ⟨n, found, number'⟩ := exists_lesser_eq (leastSq before) number
  rw [← leastSq_concat, ← last] at found
  rw [distance_of_leastSq found]
  exact Number.isNaN_sqrt (isPlus_of_mem (mem_of_leastSq found)) number'

/-- **Only the axles behind the last NaN count.** -/
theorem exists_distance_eq_of_behind (split : t.axleDistancesSq p = before ++ d :: after)
    (nan : d.isNaN = true) (numbers : ∀ d ∈ after, d.isNaN = false) (behind : after ≠ []) :
    ∃ n, IsLeastSq after n ∧ t.distance p = n.sqrt := by
  obtain ⟨n, found, least⟩ := exists_isLeastSq numbers behind
  refine ⟨n, least, distance_of_leastSq ?_⟩
  rw [split, leastSq_append_of_isNaN nan before behind, found]

end Train

/-! ## Trains in another order -/

/-- The car with its axles exchanged. -/
def Car.exchangeAxles (car : Car) : Car :=
  { car with frontAxle := car.rearAxle, rearAxle := car.frontAxle }

/-- The cars in any order, any of them with its axles exchanged. -/
def Rearranged (cars cars' : List Car) : Prop :=
  ∃ turned, List.Forall₂ (fun car car' => car' = car ∨ car' = car.exchangeAxles) cars turned ∧
    turned.Perm cars'

namespace Train

variable {t : Train} {p : Point} {cars : List Car} {d : Float}

/-- A train that is rearranged has the same axles. -/
theorem perm_axleDistancesSq (rearranged : Rearranged t.cars cars) :
    (t.axleDistancesSq p).Perm ({ t with cars }.axleDistancesSq p) := by
  obtain ⟨turned, exchanged, perm⟩ := rearranged
  refine List.Perm.trans ?_ (perm.flatMap_right _)
  unfold axleDistancesSq
  generalize t.cars = front at exchanged
  clear perm
  induction exchanged with
  | nil => rfl
  | cons turns _ ih =>
    rw [List.flatMap_cons, List.flatMap_cons]
    refine List.Perm.append ?_ ih
    rcases turns with rfl | rfl
    · rfl
    · exact List.Perm.swap _ _ _

theorem cars_ne_nil_of_rearranged (rearranged : Rearranged t.cars cars) (hasCar : t.cars ≠ []) :
    cars ≠ [] := by
  obtain ⟨turned, exchanged, perm⟩ := rearranged
  have length := exchanged.length_eq.trans perm.length_eq
  rw [← List.length_pos_iff] at hasCar ⊢
  omega

theorem cars_eq_nil_of_rearranged (rearranged : Rearranged t.cars cars) (noCar : t.cars = []) :
    cars = [] := by
  obtain ⟨turned, exchanged, perm⟩ := rearranged
  have length := exchanged.length_eq.trans perm.length_eq
  rw [← List.length_eq_zero_iff] at noCar ⊢
  omega

/-- **The order does not matter** where all squared distances are numbers, -/
theorem distance_of_rearranged (rearranged : Rearranged t.cars cars)
    (numbers : ∀ d ∈ t.axleDistancesSq p, d.isNaN = false) :
    { t with cars }.distance p = t.distance p := by
  rcases eq_or_ne t.cars [] with noCar | hasCar
  · rw [distance_of_nil noCar]
    exact distance_of_nil (t := { t with cars }) (cars_eq_nil_of_rearranged rearranged noCar) p
  · have perm := perm_axleDistancesSq (p := p) rearranged
    obtain ⟨n, least, same⟩ := exists_distance_eq hasCar numbers
    obtain ⟨n', least', same'⟩ := exists_distance_eq (t := { t with cars }) (p := p)
      (cars_ne_nil_of_rearranged rearranged hasCar) fun d mem => numbers d (perm.mem_iff.mpr mem)
    rw [same, same', least.unique least' perm fun d mem => isPlus_of_mem mem]

/-- and where none of them is. -/
theorem distance_of_rearranged_of_isNaN (rearranged : Rearranged t.cars cars)
    (nans : ∀ d ∈ t.axleDistancesSq p, d.isNaN = true) :
    { t with cars }.distance p = t.distance p := by
  rcases eq_or_ne t.cars [] with noCar | hasCar
  · rw [distance_of_nil noCar]
    exact distance_of_nil (t := { t with cars }) (cars_eq_nil_of_rearranged rearranged noCar) p
  · have perm := perm_axleDistancesSq (p := p) rearranged
    apply Number.eq_of_isNaN
    · exact isNaN_distance_of_forall (t := { t with cars })
        (cars_ne_nil_of_rearranged rearranged hasCar) fun d mem => nans d (perm.mem_iff.mpr mem)
    · exact isNaN_distance_of_forall hasCar nans

/-- Any axle can be made the last one. -/
theorem exists_rearranged (mem : d ∈ t.axleDistancesSq p) :
    ∃ cars before, Rearranged t.cars cars ∧
      { t with cars }.axleDistancesSq p = before ++ [d] := by
  obtain ⟨car, inTrain, ofCar⟩ := List.mem_flatMap.mp mem
  obtain ⟨front, rear, split⟩ := List.append_of_mem inTrain
  obtain ⟨car', other, turns, axles⟩ : ∃ car' other, (car' = car ∨ car' = car.exchangeAxles) ∧
      car'.axleDistancesSq p = [other, d] := by
    rcases List.mem_pair.mp ofCar with rfl | rfl
    · exact ⟨car.exchangeAxles, _, .inr rfl, rfl⟩
    · exact ⟨car, _, .inl rfl, rfl⟩
  refine ⟨front ++ rear ++ [car'], (front ++ rear).flatMap (Car.axleDistancesSq · p) ++ [other],
    ⟨front ++ car' :: rear, ?_, ?_⟩, ?_⟩
  · rw [split]
    refine List.rel_append (List.forall₂_same.mpr fun _ _ => .inl rfl) ?_
    exact .cons turns (List.forall₂_same.mpr fun _ _ => .inl rfl)
  · exact List.perm_middle.trans (List.perm_append_singleton car' (front ++ rear)).symm
  · rw [axleDistancesSq, List.flatMap_append, List.flatMap_singleton, axles, List.append_assoc]
    rfl

/-- **The order matters** exactly if some squared distances are numbers and others are not: then
either kind can be the last one, and the distance is of that kind. -/
theorem forall_distance_eq_iff :
    (∀ cars, Rearranged t.cars cars → { t with cars }.distance p = t.distance p) ↔
      (∀ d ∈ t.axleDistancesSq p, d.isNaN = false) ∨
        ∀ d ∈ t.axleDistancesSq p, d.isNaN = true := by
  constructor
  · intro anyOrder
    by_contra mixed
    simp only [not_or, not_forall, Bool.not_eq_false, Bool.not_eq_true] at mixed
    obtain ⟨⟨d, mem, nan⟩, d', mem', number⟩ := mixed
    obtain ⟨cars, before, rearranged, last⟩ := exists_rearranged mem
    obtain ⟨cars', before', rearranged', last'⟩ := exists_rearranged mem'
    have nanLast := isNaN_distance last nan
    have numberLast := isNaN_distance_eq_false last' number
    rw [anyOrder cars rearranged] at nanLast
    rw [anyOrder cars' rearranged', nanLast] at numberLast
    cases numberLast
  · rintro (numbers | nans) cars rearranged
    · exact distance_of_rearranged rearranged numbers
    · exact distance_of_rearranged_of_isNaN rearranged nans

end Train

/-- **Which axle the distance of a train is that of.**

* Without a car it is zero.
* Where the squared distances of all axles are numbers, it is the root of the least one.
* Otherwise the axles up to the last one whose squared distance is no number do not count. Of those
  behind it, it is the root of the least one, and no axle is nearer unless one of those that do not
  count is. If there is none behind it, the distance is no number either.
* The cars in any other order, any of them with its axles exchanged, have the same distance exactly
  if all squared distances are numbers or none of them is. -/
theorem distance_to_counted_axles (t : Train) (p : Point) :
    (t.cars = [] → t.distance p = 0.0) ∧
    (t.cars ≠ [] → (∀ d ∈ t.axleDistancesSq p, d.isNaN = false) →
      ∃ n, IsLeastSq (t.axleDistancesSq p) n ∧ t.distance p = n.sqrt) ∧
    (∀ before nan after, t.axleDistancesSq p = before ++ nan :: after → nan.isNaN = true →
      (∀ d ∈ after, d.isNaN = false) →
      (after = [] → (t.distance p).isNaN = true) ∧
      (after ≠ [] → ∃ n, IsLeastSq after n ∧ t.distance p = n.sqrt ∧
        ((∀ d ∈ t.axleDistancesSq p, ¬ d < n) ↔ ∀ d ∈ before, ¬ d < n))) ∧
    ((∀ cars, Rearranged t.cars cars → { t with cars }.distance p = t.distance p) ↔
      (∀ d ∈ t.axleDistancesSq p, d.isNaN = false) ∨
        ∀ d ∈ t.axleDistancesSq p, d.isNaN = true) := by
  refine ⟨fun noCar => Train.distance_of_nil noCar p, Train.exists_distance_eq,
    fun before nan after split isNaN numbers => ⟨?_, fun behind => ?_⟩, ?_⟩
  · rintro rfl
    exact Train.isNaN_distance split isNaN
  · obtain ⟨n, least, same⟩ := Train.exists_distance_eq_of_behind split isNaN numbers behind
    have notBelow : ∀ d ∈ nan :: after, ¬ d < n := by
      refine List.forall_mem_cons.mpr ⟨fun less => ?_, fun d mem => ?_⟩
      · have number := (Number.lt_iff.mp less).1
        rw [isNaN] at number
        cases number
      · exact Number.not_lt_of_le (least.le d mem)
    refine ⟨n, least, same, ?_⟩
    rw [split, List.forall_mem_append]
    exact and_iff_left notBelow
  · exact Train.forall_distance_eq_iff

/-- A point `1.0` from the first axle, with the second one nowhere: what counts is the last one. -/
theorem distance_to_counted_axles_lost_axle :
    let axle : Float → Axle := fun z => { place := ⟨0.0, 0.0, z⟩ }
    let lost : Train := { cars := [{ frontAxle := axle 1.0, rearAxle := axle (0.0 / 0.0) },
      { frontAxle := axle 5.0, rearAxle := axle 2.0 }] }
    let found : Train := { cars := [{ frontAxle := axle 3.0, rearAxle := axle (-1.0) }] }
    lost.axleDistancesSq {} = [1.0] ++ (0.0 / 0.0) :: [25.0, 4.0] ∧
      (∃ n, IsLeastSq [25.0, 4.0] n ∧ lost.distance {} = n.sqrt) ∧
      ¬ (∀ cars, Rearranged lost.cars cars → { lost with cars }.distance {} = lost.distance {}) ∧
      (∃ n, IsLeastSq (found.axleDistancesSq {}) n ∧ found.distance {} = n.sqrt) ∧
      ∀ cars, Rearranged found.cars cars → { found with cars }.distance {} = found.distance {} := by
  intro axle lost found
  obtain ⟨-, -, behindNaN, anyOrder⟩ := distance_to_counted_axles lost {}
  obtain ⟨-, nearest, -, anyOrder'⟩ := distance_to_counted_axles found {}
  have split : lost.axleDistancesSq {} = [1.0] ++ (0.0 / 0.0) :: [25.0, 4.0] := by decide +kernel
  have numbers : ∀ d ∈ found.axleDistancesSq {}, d.isNaN = false := by decide +kernel
  obtain ⟨-, behind⟩ := behindNaN _ _ _ split (by decide +kernel) (by decide +kernel)
  obtain ⟨n, least, same, -⟩ := behind (List.cons_ne_nil _ _)
  refine ⟨split, ⟨n, least, same⟩, fun all => ?_, nearest (List.cons_ne_nil _ _) numbers,
    anyOrder'.mpr (.inl numbers)⟩
  rcases anyOrder.mp all with numbers | nans
  · exact absurd (numbers (0.0 / 0.0) (by rw [split]; simp)) (by decide +kernel)
  · exact absurd (nans 1.0 (by rw [split]; simp)) (by decide +kernel)

/-- The axle in front of the lost one is nearer than the one whose distance is the result, and it
is found when it changes places with the lost one. -/
theorem nearer_axle_is_forgotten :
    let axle : Float → Axle := fun z => { place := ⟨0.0, 0.0, z⟩ }
    let front : Car := { frontAxle := axle 1.0, rearAxle := axle (0.0 / 0.0) }
    let rear : Car := { frontAxle := axle 5.0, rearAxle := axle 2.0 }
    let t : Train := { cars := [front, rear] }
    t.distance {} = 2.0 ∧
      (∃ d ∈ t.axleDistancesSq {}, ∀ n ∈ t.axleDistancesSq {}, t.distance {} = n.sqrt → d < n) ∧
      { t with cars := [front.exchangeAxles, rear] }.distance {} = 1.0 := by
  decide +kernel

end CabScript
