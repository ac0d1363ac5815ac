import CabScript.Rolling.Footprint
import Mathlib

/-!
# Trains on the track

Over exact numbers, distances on the track do not depend on where the counting of positions starts:
if all axles and the position that is looked at are moved by the same amount, every distance stays
what it is. A train without a car has no axles to move, and both of its ends stay at zero.

From its rear to its front a train is at distance zero, and behind and ahead of it the distance
grows with the position.

## Main definitions

* `Footprint.move`: a car moved along the track.

## Main statements

* `Footprint.trainFront_move`, `Footprint.trainRear_move`: the ends of a train that is moved.
* `Footprint.trainDistance_mono`, `Footprint.trainDistance_eq_zero_iff`: the distance as a function
  of the position.
* `track_distance_relative`: what the distances on the track depend on.
-/

namespace CabScript

namespace Footprint

variable {f : Footprint ℚ} {cars : List (Footprint ℚ)} {p q s : ℚ}

/-- The car with both axles moved along the track. -/
def move (s : ℚ) (f : Footprint ℚ) : Footprint ℚ where
  front := { f.front with track := f.front.track + s }
  rear := { f.rear with track := f.rear.track + s }
  length := f.length

/-! ## Moved cars -/

theorem track_move (s : ℚ) (f : Footprint ℚ) : (f.move s).track = f.track + s := by
  simp only [track, move]
  norm_num
  ring

theorem nose_move (s : ℚ) (f : Footprint ℚ) : (f.move s).nose = f.nose + s := by
  simp only [nose, move]
  ring

theorem tail_move (s : ℚ) (f : Footprint ℚ) : (f.move s).tail = f.tail + s := by
  simp only [tail, move]
  ring

/-- The front of a train moves with its cars, if it has any. -/
theorem trainFront_move (hasCar : cars ≠ []) (s : ℚ) :
    trainFront (cars.map (move s)) = trainFront cars + s := by
  rw [trainFront, trainFront, List.head?_map, List.head?_eq_some_head hasCar]
  exact nose_move s _

/-- So does its rear. -/
theorem trainRear_move (hasCar : cars ≠ []) (s : ℚ) :
    trainRear (cars.map (move s)) = trainRear cars + s := by
  rw [trainRear, trainRear, List.getLast?_map, List.getLast?_eq_some_getLast hasCar]
  exact tail_move s _

/-! ## Distances -/

theorem trainDistance_of_ahead (h : trainFront cars < p) :
    trainDistance cars p = p - trainFront cars :=
  if_pos h

theorem trainDistance_of_behind (notAhead : p ≤ trainFront cars) (h : p < trainRear cars) :
    trainDistance cars p = p - trainRear cars :=
  (if_neg notAhead.not_gt).trans (if_pos h)

theorem trainDistance_of_mem (h : p ∈ Set.Icc (trainRear cars) (trainFront cars)) :
    trainDistance cars p = 0 :=
  (if_neg h.2.not_gt).trans (if_neg h.1.not_gt)

/-- **Moving the cars and the position** makes no difference to the distance, if there are cars. -/
theorem trainDistance_move (hasCar : cars ≠ []) (s p : ℚ) :
    trainDistance (cars.map (move s)) (p + s) = trainDistance cars p := by
  simp only [trainDistance, trainFront_move hasCar, trainRear_move hasCar, add_lt_add_iff_right,
    add_sub_add_right_eq_sub]

/-- Without a car the distance is the position itself. -/
theorem trainDistance_nil (p : ℚ) : trainDistance [] p = p := by
  simp only [trainDistance, trainFront, trainRear, List.head?_nil, List.getLast?_nil, sub_zero]
  split_ifs with ahead behind
  · rfl
  · rfl
  · exact le_antisymm (not_lt.mp behind) (not_lt.mp ahead)

/-! ## Ahead, alongside, behind -/

/-- The distance is zero alongside the train only: it is above zero ahead of it and below zero
behind it. -/
theorem trainDistance_eq_zero_iff :
    trainDistance cars p = 0 ↔ p ∈ Set.Icc (trainRear cars) (trainFront cars) := by
  constructor
  · intro zero
    rcases lt_or_ge (trainFront cars) p with ahead | notAhead
    · rw [trainDistance_of_ahead ahead] at zero
      exact absurd zero (sub_pos.mpr ahead).ne'
    · rcases lt_or_ge p (trainRear cars) with behind | notBehind
      · rw [trainDistance_of_behind notAhead behind] at zero
        exact absurd zero (sub_neg.mpr behind).ne
      · exact ⟨notBehind, notAhead⟩
  · exact trainDistance_of_mem

/-- The distance never falls when the position grows. -/
theorem trainDistance_mono (cars : List (Footprint ℚ)) : Monotone (trainDistance cars) := by
  intro p q le
  simp only [trainDistance]
  split_ifs <;> linarith

end Footprint

open Footprint

/-- **What the distances on the track depend on,** over exact numbers. Let a train have any cars.

* Moving a car and the position by the same amount does not change the distance between them.
* Moving all cars and the position does not change the distance of the train, if it has a car.
  Without a car it has both of its ends at zero, and the position itself is the distance.
* The distance never falls when the position grows, and it is zero exactly from the rear to the
  front; so it is zero nowhere if the rear is in front of the front. -/
theorem track_distance_relative (cars : List (Footprint ℚ)) :
    (∀ car ∈ cars, ∀ s p, p + s - (car.move s).track = p - car.track) ∧
    (cars ≠ [] → ∀ s p, trainDistance (cars.map (move s)) (p + s) = trainDistance cars p) ∧
    (cars = [] → ∀ p, trainDistance cars p = p) ∧
    Monotone (trainDistance cars) ∧
    ∀ p, trainDistance cars p = 0 ↔ p ∈ Set.Icc (trainRear cars) (trainFront cars) := by
  refine ⟨fun car _ s p => ?_, trainDistance_move, ?_, trainDistance_mono cars,
    fun p => trainDistance_eq_zero_iff⟩
  · rw [track_move, add_sub_add_right_eq_sub]
  · rintro rfl
    exact trainDistance_nil

/-- Two cars of 20 metres, from 102 down to 60. -/
theorem track_distance_relative_two_cars :
    let ahead : Footprint ℚ := ⟨⟨7, 99⟩, ⟨-7, 85⟩, 20⟩
    let behind : Footprint ℚ := ⟨⟨7, 77⟩, ⟨-7, 63⟩, 20⟩
    let cars := [ahead, behind]
    trainRear cars = 60 ∧ trainFront cars = 102 ∧
      (∀ s, 100 + s - (behind.move s).track = 30) ∧
      (∀ s, trainDistance (cars.map (move s)) (112 + s) = 10) ∧
      trainDistance cars 50 ≤ trainDistance cars 81 ∧ trainDistance cars 81 = 0 := by
  intro ahead behind cars
  obtain ⟨ofCar, ofTrain, -, mono, alongside⟩ := track_distance_relative cars
  have rear : trainRear cars = 60 := by decide +kernel
  have front : trainFront cars = 102 := by decide +kernel
  refine ⟨rear, front, fun s => ?_, fun s => ?_, mono (by decide +kernel), (alongside 81).mpr ?_⟩
  · rw [ofCar behind (by simp [cars])]
    decide +kernel
  · rw [ofTrain (List.cons_ne_nil _ _)]
    decide +kernel
  · rw [rear, front]
    constructor <;> decide +kernel

/-- Without a car there is nothing to move but the position. -/
theorem trainDistance_changes_without_cars :
    trainDistance (([] : List (Footprint ℚ)).map (move 1)) (0 + 1) ≠ trainDistance [] 0 := by
  rw [List.map_nil, trainDistance_nil, trainDistance_nil]
  decide +kernel

end CabScript
