import CabScript.Proofs.Dependence

/-!
# What a script reads

The scene reaches a script only through queries, the last result only through `previous`, and the
source of random words only through draws. Each query looks at few parts of what the element sees.
So a script whose instructions leave some parts alone cannot tell two viewpoints apart that differ
in these parts, whatever else it computes from what it does read.

## Main definitions

* `Part`, `Part.isReadBy`: the parts of a viewpoint, and the codes of the instructions that read
  each of them.
* `Viewpoint.SameBut`: two viewpoints differ in nothing but some parts.

## Main statements

* `Query.read_congr`, `IndexedQuery.read_congr`: a query reads nothing but its parts.
* `seesAlike_of_avoids`: so does an instruction.
* `Script.evaluate_of_seesAlike`: two evaluations that find the same.
* `evaluation_footprint`: for every part of a viewpoint, for the last result and for the source.
-/

namespace CabScript

open Instruction

/-- A part of what an element sees. -/
inductive Part where
  | elapsed | objectState | place | track | sectionIndex | isOnTrain | carIndex | train | world
deriving DecidableEq, Repr

/-- Whether the instruction of a code reads a part. -/
def Part.isReadBy : Part → UInt16 → Bool
  | elapsed, code => code == 4
  | objectState, code => code == 48
  | place, code => (50 ≤ code && code ≤ 53) || code == 66 || code == 67
  | track, code => code == 68 || code == 69
  | sectionIndex, code => code == 133
  | isOnTrain, code => code == 133 || code == 136
  | carIndex, code => [58, 60, 62, 112, 114, 116, 118, 120, 136].contains code
  | train, code =>
    (55 ≤ code && code ≤ 69) || [71, 73, 75, 77, 79].contains code || (82 ≤ code && code ≤ 91) ||
      (95 ≤ code && code ≤ 102) || (107 ≤ code && code ≤ 123) || code == 133 || code == 135
  | world, code => (49 ≤ code && code ≤ 54) || (122 ≤ code && code ≤ 124) || code == 133

namespace Instruction

/-- Whether an instruction reads a part. A code that is taken for unknown reads nothing. -/
def reads (part : Part) : Instruction → Bool
  | unknown _ => false
  | i => part.isReadBy i.code

/-- The instruction reads none of some parts. -/
def Avoids (parts : Set Part) (i : Instruction) : Prop :=
  ∀ part ∈ parts, i.reads part = false

theorem Avoids.notMem {parts : Set Part} {i : Instruction} (h : i.Avoids parts) {part : Part}
    (reads : i.reads part = true) : part ∉ parts := by
  intro mem
  rw [h part mem] at reads
  cases reads

end Instruction

/-- Two viewpoints differ in nothing but some parts. -/
structure Viewpoint.SameBut (parts : Set Part) (v v' : Viewpoint) : Prop where
  elapsed : .elapsed ∉ parts → v'.elapsed = v.elapsed
  objectState : .objectState ∉ parts → v'.objectState = v.objectState
  place : .place ∉ parts → v'.place = v.place
  track : .track ∉ parts → v'.track = v.track
  sectionIndex : .sectionIndex ∉ parts → v'.sectionIndex = v.sectionIndex
  isOnTrain : .isOnTrain ∉ parts → v'.isOnTrain = v.isOnTrain
  carIndex : .carIndex ∉ parts → v'.carIndex = v.carIndex
  train : .train ∉ parts → v'.train = v.train
  world : .world ∉ parts → v'.world = v.world

/-! ## What a query reads -/

section Queries

/-- Every query about the train reads the train. -/
theorem TrainQuery.reads_train (q : TrainQuery) : (query (.train q)).reads .train = true := by
  cases q with
  | doors side => rcases side with _ | _ | _ <;> rfl
  | doorTarget side => cases side <;> rfl
  | _ => rfl

/-- So does every query about a selected car, but for the distance it has run. -/
theorem CarQuery.reads_train {q : CarQuery} (h : q ≠ .odometer) :
    (queryAt (.car q)).reads .train = true := by
  cases q with
  | reading r => cases r <;> rfl
  | doors side => rcases side with _ | _ | _ <;> rfl
  | doorTarget side => cases side <;> rfl
  | odometer => exact absurd rfl h
  | _ => rfl

theorem CarReading.reads_own (r : CarReading) :
    (query (.ownCar r)).reads .train = true ∧ (query (.ownCar r)).reads .carIndex = true := by
  cases r <;> exact ⟨rfl, rfl⟩

variable {parts : Set Part} {v v' : Viewpoint} (same : v.SameBut parts v')
include same

/-- A query about a train reads where the element is if it asks for a distance. -/
theorem TrainQuery.read_congr (q : TrainQuery) (avoids : (query (.train q)).Avoids parts)
    (train : Train) : q.read v' train = q.read v train := by
  cases q with
  | distance => rw [TrainQuery.read, TrainQuery.read, same.place (avoids.notMem rfl)]
  | trackDistance => rw [TrainQuery.read, TrainQuery.read, same.track (avoids.notMem rfl)]
  | _ => rfl

theorem CarQuery.read_congr (q : CarQuery) (avoids : (queryAt (.car q)).Avoids parts)
    (train : Train) (car : Car) : q.read v' train car = q.read v train car := by
  cases q with
  | distance => rw [CarQuery.read, CarQuery.read, same.place (avoids.notMem rfl)]
  | trackDistance => rw [CarQuery.read, CarQuery.read, same.track (avoids.notMem rfl)]
  | _ => rfl

/-- **A query reads nothing but its parts.** -/
theorem Query.read_congr (q : Query) (avoids : (query q).Avoids parts) :
    q.read v' = q.read v := by
  cases q with
  | elapsed => exact same.elapsed (avoids.notMem rfl)
  | objectState => rw [Query.read, Query.read, same.objectState (avoids.notMem rfl)]
  | time => rw [Query.read, Query.read, same.world (avoids.notMem rfl)]
  | cameraDistance =>
    simp only [Query.read, Viewpoint.cameraOffset, same.world (avoids.notMem rfl),
      same.place (avoids.notMem rfl)]
  | cameraOffset axis =>
    have world : .world ∉ parts := by cases axis <;> exact avoids.notMem rfl
    have place : .place ∉ parts := by cases axis <;> exact avoids.notMem rfl
    simp only [Query.read, Viewpoint.cameraOffset, same.world world, same.place place]
  | cameraView =>
    simp only [Query.read, Viewpoint.cameraView, same.world (avoids.notMem rfl)]
  | ownCar r =>
    obtain ⟨train, carIndex⟩ := r.reads_own
    simp only [Query.read, Viewpoint.ownCarOrZero, Viewpoint.ownCar?,
      same.train (avoids.notMem train), same.carIndex (avoids.notMem carIndex)]
  | carNumber =>
    simp only [Query.read, Viewpoint.carNumber, same.isOnTrain (avoids.notMem rfl),
      same.carIndex (avoids.notMem rfl)]
  | train q =>
    simp only [Query.read, Viewpoint.trainOrZero, same.train (avoids.notMem q.reads_train),
      q.read_congr same avoids]
  | panelAvailable =>
    simp only [Query.read, Viewpoint.panelAvailable, Viewpoint.trainOrZero,
      same.train (avoids.notMem rfl), same.world (avoids.notMem rfl)]
  | showsTimetable => rw [Query.read, Query.read, same.world (avoids.notMem rfl)]
  | sectionAspect =>
    simp only [Query.read, Viewpoint.sectionAspect, Viewpoint.aspectSection?,
      same.isOnTrain (avoids.notMem rfl), same.train (avoids.notMem rfl),
      same.sectionIndex (avoids.notMem rfl), same.world (avoids.notMem rfl)]
  | unprovided u => rfl

omit same in
/-- The distance run is not counted, whether the car is there or not. -/
theorem IndexedQuery.read_odometer (v : Viewpoint) (operand : Float) :
    IndexedQuery.read v operand (.car .odometer) = 0.0 := by
  simp only [IndexedQuery.read, Viewpoint.carOrZero, Viewpoint.trainOrZero, CarQuery.read]
  cases v.train with
  | none => rfl
  | some train => cases h : train.car? operand <;> simp [h]

theorem IndexedQuery.read_congr (q : IndexedQuery) (avoids : (queryAt q).Avoids parts)
    (operand : Float) : q.read v' operand = q.read v operand := by
  cases q with
  | car q =>
    by_cases odometer : q = .odometer
    · subst odometer
      rw [read_odometer, read_odometer]
    · simp only [IndexedQuery.read, Viewpoint.carOrZero, Viewpoint.trainOrZero,
        same.train (avoids.notMem (q.reads_train odometer)), q.read_congr same avoids]
  | panel =>
    simp only [IndexedQuery.read, Viewpoint.panelState, Viewpoint.trainOrZero,
      same.train (avoids.notMem rfl), same.world (avoids.notMem rfl)]
  | station q => rfl

end Queries

/-! ## What an instruction finds -/

/-- An instruction that avoids the parts in which two viewpoints differ finds the same, if it does
not push a last result that is another one. -/
theorem seesAlike_of_avoids {i : Instruction} {parts : Set Part} {v v' : Viewpoint}
    (same : v.SameBut parts v') (avoids : i.Avoids parts) {x y : Float}
    (last : y = x ∨ i ≠ previous) : i.SeesAlike ⟨v, x⟩ ⟨v', y⟩ := by
  cases i with
  | previous => exact last.resolve_right (absurd rfl)
  | query q => exact q.read_congr same avoids
  | queryAt q => exact q.read_congr same avoids
  | _ => trivial

/-! ## What an evaluation depends on -/

namespace Script

variable {γ δ : Type} [WordSource γ] [WordSource δ] {s : Script} {v v' : Viewpoint} {x : Float}

/-- Evaluations that find the same show the same from the same source. -/
theorem evaluate_of_seesAlike
    (alike : ∀ i ∈ live s.code, i.SeesAlike ⟨v, s.lastResult⟩ ⟨v', x⟩) (source : γ) :
    ((s.withLastResult x).evaluate v' source).observation =
      (s.evaluate v source).observation := by
  obtain ⟨outcome, stack, left⟩ := evaluate_related (s := s) (t := s.withLastResult x) rfl rfl rfl
    (fun i mem => yieldsAlike_of_seesAlike (γ := γ) (alike i mem)) (rfl : source = source)
  simp only [Evaluation.observation, outcome, stack, left]

/-- Without a draw they do so from any two sources, and leave these alone. -/
theorem evaluate_of_undrawn
    (alike : ∀ i ∈ live s.code, i.SeesAlike ⟨v, s.lastResult⟩ ⟨v', x⟩)
    (undrawn : ∀ d, draw d ∉ live s.code) (source : γ) (source' : δ) :
    (s.evaluate v source).source = source ∧
      ((s.withLastResult x).evaluate v' source').observation =
        ⟨(s.evaluate v source).outcome, (s.evaluate v source).script.stack.values, source'⟩ := by
  have noDraw : ∀ i ∈ live s.code, ∀ d, i ≠ draw d := by
    rintro _ mem d rfl
    exact undrawn d mem
  -- related sources are those that nothing has been drawn from
  obtain ⟨outcome, stack, left, left'⟩ := evaluate_related (s := s) (t := s.withLastResult x)
    (R := fun a b => a = source ∧ b = source') rfl rfl rfl
    (fun i mem => yieldsAlike_of_undrawn (alike i mem) (noDraw i mem) _) ⟨rfl, rfl⟩
  refine ⟨left, ?_⟩
  simp only [Evaluation.observation, outcome, stack, left']

end Script

/-- **An evaluation depends on what its instructions read,** and on nothing else.

* Two viewpoints that differ in some parts show the same if no instruction in front of the first
  `halt` reads one of these parts. So do two last results if there is no `previous` there.
* Without a draw nothing is drawn, and all sources show the same.
* So what computes on constants and on the last result alone shows the same to every element. -/
theorem evaluation_footprint {γ δ : Type} [WordSource γ] [WordSource δ] (s : Script) :
    (∀ (parts : Set Part) (v v' : Viewpoint) (x : Float), v.SameBut parts v' →
      (∀ i ∈ live s.code, ∀ part ∈ parts, i.reads part = false) →
      (x = s.lastResult ∨ previous ∉ live s.code) →
      ∀ source : γ,
        ((s.withLastResult x).evaluate v' source).observation =
          (s.evaluate v source).observation ∧
        ((∀ d, draw d ∉ live s.code) → (s.evaluate v source).source = source ∧
          ∀ source' : δ, ((s.withLastResult x).evaluate v' source').observation =
            ⟨(s.evaluate v source).outcome, (s.evaluate v source).script.stack.values,
              source'⟩)) ∧
    ((∀ i ∈ live s.code, i.isPure = true ∨ i = previous) →
      ∀ (v v' : Viewpoint) (source : γ) (source' : δ),
        (s.evaluate v source).source = source ∧
        (s.evaluate v' source').observation =
          ⟨(s.evaluate v source).outcome, (s.evaluate v source).script.stack.values, source'⟩) := by
  constructor
  · intro parts v v' x same avoids last source
    have alike : ∀ i ∈ live s.code, i.SeesAlike ⟨v, s.lastResult⟩ ⟨v', x⟩ := by
      intro i mem
      refine seesAlike_of_avoids same (avoids i mem) (last.imp_right fun absent => ?_)
      rintro rfl
      exact absent mem
    refine ⟨Script.evaluate_of_seesAlike alike source, fun undrawn => ?_⟩
    exact ⟨(Script.evaluate_of_undrawn alike undrawn source source).1,
      fun source' => (Script.evaluate_of_undrawn alike undrawn source source').2⟩
  · intro plain v v' source source'
    have alike : ∀ i ∈ live s.code, i.SeesAlike ⟨v, s.lastResult⟩ ⟨v', s.lastResult⟩ := by
      intro i mem
      rcases plain i mem with pure | rfl
      · exact seesAlike_of_isPure pure _ _
      · rfl
    have undrawn : ∀ d, draw d ∉ live s.code := by
      intro d mem
      rcases plain _ mem with pure | same
      · cases pure
      · cases same
    exact Script.evaluate_of_undrawn alike undrawn source source'

/-- The distance along the track from a train that comes by, for an element that is put elsewhere
beside the track, after another time. The camera is asked for behind the end only. -/
theorem evaluation_footprint_moved : ∃ s : Script,
    Script.ofCode [query (.train .trackDistance), previous, binary .max, halt,
      query .cameraDistance] [] = .ok s ∧
    ∀ (train : Train) (place : Point) (elapsed : Float) (source' : Stepper),
      let v := (Viewpoint.ofWorld {}).beside train
      (s.evaluate { v with place, elapsed } source').observation =
        ⟨(s.evaluate v (Stepper.mk 0 1)).outcome,
          (s.evaluate v (Stepper.mk 0 1)).script.stack.values, source'⟩ := by
  let s : Script := ⟨[query (.train .trackDistance), previous, binary .max, halt,
    query .cameraDistance], [], ⟨[], 2⟩, 0.0, 2, Nat.le_refl 2, rfl⟩
  refine ⟨s, rfl, fun train place elapsed source' => ?_⟩
  have same : ((Viewpoint.ofWorld {}).beside train).SameBut {.place, .elapsed}
      { (Viewpoint.ofWorld {}).beside train with place, elapsed } := by
    constructor <;> simp
  have avoids : ∀ i ∈ live s.code, ∀ part ∈ ({.place, .elapsed} : Set Part),
      i.reads part = false := by
    rintro i mem part (rfl | rfl) <;> revert i <;> decide
  have undrawn : ∀ d, draw d ∉ live s.code := by
    intro d
    cases d <;> decide
  exact (((evaluation_footprint s).1 _ _ _ _ same avoids (.inl rfl) (Stepper.mk 0 1)).2 undrawn).2
    source'

end CabScript
