import CabScript.Instruction.Query
import CabScript.Proofs.ExactValue
import CabScript.Proofs.WholeSums

/-!
# The linear brake scale

The linear scale numbers the positions of a brake handle along its way: released, the hold brake
where a notched handle has one, the notches, emergency. So the number of a setting is in order with
the numbers of all other settings of the handle, two settings have one number only where they are
one position, and the numbers go from zero to the highest one without a gap.

A setting is first taken to its position, where settings that differ in nothing that counts are
the same, and the order is that of the positions.

## Main definitions

* `BrakePosition`, `BrakePosition.Before`: the positions, and their order on the way.
* `Controls.brakePosition`, `Controls.placeOf`: the position of a setting, the number of a position.
* `Controls.IsRegular`, `Controls.SameHandle`: the notch is one of the handle; two settings of one
  handle.
* `Controls.linearNotchInDoubles`, `Controls.linearHighestInDoubles`: the scale computed with
  doubles.

## Main statements

* `Controls.linearNotch_eq_placeOf`, `Controls.placeOf_lt_iff`: a setting has the number of its
  position, and numbers are in the order of positions.
* `brake_scale_orders_positions`: the scale as scripts read it.
-/

namespace CabScript

/-- The positions of a brake handle. -/
inductive BrakePosition where
  | notch (n : ℤ)
  /-- The hold brake is applied, and no notch. -/
  | hold
  | emergency
deriving DecidableEq, Repr

/-- The position comes before the other one on the way of the handle. -/
def BrakePosition.Before : BrakePosition → BrakePosition → Prop
  | notch m, notch n => m < n
  | notch m, hold => m ≤ 0
  | hold, notch n => 0 < n
  | notch _, emergency | hold, emergency => True
  | hold, hold | emergency, _ => False

namespace Controls

/-- The notch is one of those that the handle has, and the highest one fits a word of 32 bits. -/
structure IsRegular (c : Controls) : Prop where
  notch_nonneg : 0 ≤ c.brake.notch
  notch_le : c.brake.notch ≤ c.brakeNotches
  highest_word : c.brake.highest ∈ Set.Ico (-2 ^ 31) (2 ^ 31)

/-- The settings are of handles of one kind. -/
structure SameHandle (c d : Controls) : Prop where
  kind : c.brake.kind = d.brake.kind
  highest : c.brake.highest = d.brake.highest
  hasHoldBrake : c.hasHoldBrake = d.hasHoldBrake

/-- Whether the hold brake is a position of the handle. -/
def hasHoldPosition (c : Controls) : Bool :=
  c.brake.kind = .notched && c.hasHoldBrake

/-- The position of a setting. -/
def brakePosition (c : Controls) : BrakePosition :=
  if c.emergency then .emergency
  else if c.hasHoldPosition ∧ c.brake.notch = 0 ∧ c.holdBrake then .hold
  else .notch c.brake.notch

/-- The position is one of the handle. -/
def IsOnWay (c : Controls) : BrakePosition → Prop
  | .notch n => 0 ≤ n ∧ n ≤ c.brakeNotches
  | .hold => c.hasHoldPosition = true
  | .emergency => 0 ≤ c.brakeNotches

/-- The number of a position: the notches above zero are behind the hold brake. -/
def placeOf (c : Controls) : BrakePosition → ℤ
  | .notch n => if c.hasHoldPosition ∧ 0 < n then n + 1 else n
  | .hold => 1
  | .emergency => c.linearHighest

variable {c d : Controls} {p q : BrakePosition}

/-! ## Numbers of positions -/

/-- Behind the notches there are the hold brake, if it is a position, and the emergency brake. -/
theorem linearHighest_eq (c : Controls) :
    c.linearHighest = c.brakeNotches + (if c.hasHoldPosition then 1 else 0) + 1 := by
  unfold linearHighest brakeNotches hasHoldPosition holdPlaces
  cases c.brake.kind <;> simp

/-- **Numbers are in the order of positions.** -/
theorem placeOf_lt_iff (hp : c.IsOnWay p) (hq : c.IsOnWay q) :
    c.placeOf p < c.placeOf q ↔ p.Before q := by
  cases p <;> cases q <;> simp only [IsOnWay] at hp hq <;>
    simp only [placeOf, BrakePosition.Before, linearHighest_eq] <;> grind

/-- The position of a regular setting is one of the handle. -/
theorem isOnWay_brakePosition (regular : c.IsRegular) : c.IsOnWay c.brakePosition := by
  have low := regular.notch_nonneg
  have high := regular.notch_le
  unfold brakePosition
  split_ifs with emergency held
  · exact low.trans high
  · exact held.1
  · exact ⟨low, high⟩

/-- The number of a setting without emergency; notches below zero are as zero where the hold brake
is a position. -/
theorem linearNotch_of_not_emergency (released : c.emergency = false) :
    c.linearNotch =
      if c.hasHoldPosition then
        if 0 < c.brake.notch then c.brake.notch + 1 else if c.holdBrake then 1 else 0
      else c.brake.notch := by
  unfold linearNotch hasHoldPosition
  rw [released]
  cases c.brake.kind <;> cases c.hasHoldBrake <;> simp

/-- **A setting has the number of its position.** -/
theorem linearNotch_eq_placeOf (regular : c.IsRegular) :
    c.linearNotch = c.placeOf c.brakePosition := by
  have low := regular.notch_nonneg
  cases emergency : c.emergency with
  | true => simp only [linearNotch, brakePosition, placeOf, emergency, if_true]
  | false =>
    rw [linearNotch_of_not_emergency emergency, brakePosition]
    split_ifs with position above applied held held' <;> simp only [placeOf] <;> grind

/-- Numbers start at zero. -/
theorem placeOf_nonneg (hp : c.IsOnWay p) : 0 ≤ c.placeOf p := by
  cases p <;> simp only [IsOnWay] at hp <;> simp only [placeOf, linearHighest_eq] <;> grind

/-- No two positions have one number. -/
theorem placeOf_inj (hp : c.IsOnWay p) (hq : c.IsOnWay q) : c.placeOf p = c.placeOf q ↔ p = q := by
  cases p <;> cases q <;> simp only [IsOnWay] at hp hq <;>
    simp only [placeOf, linearHighest_eq] <;> grind

/-- The highest number is that of the emergency brake, and all others are below it. -/
theorem placeOf_lt_linearHighest (hp : c.IsOnWay p) (hq : c.IsOnWay .emergency)
    (released : p ≠ .emergency) : c.placeOf p < c.linearHighest := by
  refine (placeOf_lt_iff hp hq).mpr ?_
  cases p with
  | notch n => trivial
  | hold => trivial
  | emergency => exact absurd rfl released

/-- There is no gap up to the highest number. -/
theorem exists_placeOf_eq (notches : 0 ≤ c.brakeNotches) {k : ℤ} (low : 0 ≤ k)
    (high : k ≤ c.linearHighest) : ∃ p, c.IsOnWay p ∧ c.placeOf p = k := by
  rcases high.eq_or_lt with rfl | below
  · exact ⟨.emergency, notches, rfl⟩
  · rw [linearHighest_eq] at below
    cases position : c.hasHoldPosition with
    | false =>
      refine ⟨.notch k, ⟨low, ?_⟩, ?_⟩
      · simp only [position, Bool.false_eq_true, if_false] at below
        omega
      · simp [placeOf, position]
    | true =>
      simp only [position, if_true] at below
      obtain rfl | rfl | above : k = 0 ∨ k = 1 ∨ 1 < k := by omega
      · exact ⟨.notch 0, ⟨le_rfl, notches⟩, by simp [placeOf]⟩
      · exact ⟨.hold, position, rfl⟩
      · refine ⟨.notch (k - 1), ⟨by omega, by omega⟩, ?_⟩
        rw [placeOf, if_pos ⟨position, by omega⟩]
        omega

/-! ## Settings of one handle -/

theorem SameHandle.hasHoldPosition (same : c.SameHandle d) :
    c.hasHoldPosition = d.hasHoldPosition := by
  rw [Controls.hasHoldPosition, same.kind, same.hasHoldBrake, ← Controls.hasHoldPosition]

theorem SameHandle.brakeNotches (same : c.SameHandle d) : c.brakeNotches = d.brakeNotches := by
  rw [Controls.brakeNotches, same.kind, same.highest, ← Controls.brakeNotches]

/-- Which positions there are depends on the handle only, -/
theorem SameHandle.isOnWay_iff (same : c.SameHandle d) : c.IsOnWay p ↔ d.IsOnWay p := by
  cases p <;> simp only [IsOnWay, same.brakeNotches, same.hasHoldPosition]

/-- and so do their numbers. -/
theorem SameHandle.placeOf_eq (same : c.SameHandle d) (p : BrakePosition) :
    c.placeOf p = d.placeOf p := by
  cases p <;>
    simp only [placeOf, linearHighest_eq, same.brakeNotches, same.hasHoldPosition]

/-- Every position of a handle is that of a setting. -/
theorem exists_brakePosition_eq (regular : c.IsRegular) (hp : c.IsOnWay p) :
    ∃ d : Controls, d.IsRegular ∧ c.SameHandle d ∧ d.brakePosition = p := by
  cases p with
  | notch n =>
    exact ⟨{ c with brake.notch := n, emergency := false, holdBrake := false },
      ⟨hp.1, hp.2, regular.highest_word⟩, ⟨rfl, rfl, rfl⟩, by simp [brakePosition]⟩
  | hold =>
    have position : c.hasHoldPosition = true := hp
    exact ⟨{ c with brake.notch := 0, emergency := false, holdBrake := true },
      ⟨le_rfl, regular.notch_nonneg.trans regular.notch_le, regular.highest_word⟩, ⟨rfl, rfl, rfl⟩,
      by rw [brakePosition, if_neg Bool.false_ne_true, if_pos ⟨position, rfl, rfl⟩]⟩
  | emergency =>
    exact ⟨{ c with emergency := true },
      ⟨regular.notch_nonneg, regular.notch_le, regular.highest_word⟩, ⟨rfl, rfl, rfl⟩, rfl⟩

theorem brakePosition_eq_emergency_iff : c.brakePosition = .emergency ↔ c.emergency = true := by
  unfold brakePosition
  split_ifs <;> simp_all

/-- Without emergency two settings of a handle are one position if they have one notch and, where
the hold brake makes a difference, agree on it. -/
theorem brakePosition_eq_iff (same : c.SameHandle d) (hc : c.emergency = false)
    (hd : d.emergency = false) :
    c.brakePosition = d.brakePosition ↔ c.brake.notch = d.brake.notch ∧
      (c.brake.kind = .notched → c.hasHoldBrake = true → c.brake.notch = 0 →
        c.holdBrake = d.holdBrake) := by
  unfold brakePosition
  rw [← same.hasHoldPosition, hc, hd]
  cases c.holdBrake <;> cases d.holdBrake <;> simp [Controls.hasHoldPosition] <;> grind

/-! ## The scale in doubles -/

/-- The place of the brake, computed with doubles, one handle after the other. -/
def linearNotchInDoubles (c : Controls) : Float :=
  let highest := Number.ofInt c.brake.highest
  if c.isAirBrake then
    if c.emergency then 3.0 else Number.ofInt c.brake.notch
  else if c.hasHoldBrake then
    if c.emergency then highest + 2.0
    else if 0 < c.brake.notch then Number.ofInt c.brake.notch + 1.0
    else if c.holdBrake then 1.0
    else 0.0
  else if c.emergency then highest + 1.0
  else Number.ofInt c.brake.notch

/-- The highest place, computed with doubles. -/
def linearHighestInDoubles (c : Controls) : Float :=
  let highest := Number.ofInt c.brake.highest
  if c.isAirBrake then 3.0
  else if c.hasHoldBrake then highest + 2.0
  else highest + 1.0

/-- A step of the scale is exact for the notches of 32 bits. -/
theorem ofInt_add_step {i : ℤ} (word : i ∈ Set.Ico (-2 ^ 31) (2 ^ 31)) :
    Number.ofInt i + 1.0 = Number.ofInt (i + 1) ∧ Number.ofInt i + 2.0 = Number.ofInt (i + 2) := by
  obtain ⟨low, high⟩ := word
  have one : (1.0 : Float) = Number.ofInt 1 := rfl
  have two : (2.0 : Float) = Number.ofInt 2 := rfl
  rw [one, two]
  exact ⟨Number.ofInt_add_ofInt (by omega) (by omega) (by omega),
    Number.ofInt_add_ofInt (by omega) (by omega) (by omega)⟩

theorem linearHighestInDoubles_eq (regular : c.IsRegular) :
    c.linearHighestInDoubles = Number.ofInt c.linearHighest := by
  obtain ⟨one, two⟩ := ofInt_add_step regular.highest_word
  unfold linearHighestInDoubles linearHighest isAirBrake holdPlaces
  cases c.brake.kind <;> cases c.hasHoldBrake <;> simp [one, two, Int.add_assoc] <;> rfl

/-- The number of notches fits a word of 32 bits, -/
theorem brakeNotches_mem (regular : c.IsRegular) : c.brakeNotches ∈ Set.Ico 0 (2 ^ 31) := by
  obtain ⟨low, high, -, word⟩ := regular
  have notches : c.brakeNotches < 2 ^ 31 := by
    unfold brakeNotches
    cases c.brake.kind with
    | notched => exact word
    | airBrake => exact (by decide : (2 : ℤ) < 2 ^ 31)
  exact ⟨low.trans high, notches⟩

/-- and so does the notch. -/
theorem notch_mem (regular : c.IsRegular) : c.brake.notch ∈ Set.Ico (-2 ^ 31) (2 ^ 31) := by
  have low := regular.notch_nonneg
  have high := regular.notch_le
  obtain ⟨-, word⟩ := brakeNotches_mem regular
  exact ⟨by omega, by omega⟩

/-- The numbers of the scale are far below those that would be rounded. -/
theorem natAbs_lt_of_le_linearHighest (regular : c.IsRegular) {k : ℤ} (low : 0 ≤ k)
    (high : k ≤ c.linearHighest) : k.natAbs < 2 ^ 53 := by
  obtain ⟨-, word⟩ := brakeNotches_mem regular
  rw [linearHighest_eq] at high
  split at high <;> omega

theorem linearNotchInDoubles_eq (regular : c.IsRegular) :
    c.linearNotchInDoubles = Number.ofInt c.linearNotch := by
  obtain ⟨one, two⟩ := ofInt_add_step regular.highest_word
  obtain ⟨next, -⟩ := ofInt_add_step (notch_mem regular)
  unfold linearNotchInDoubles linearNotch linearHighest isAirBrake holdPlaces
  cases c.brake.kind <;> cases c.hasHoldBrake <;> cases c.emergency <;>
    simp [one, two, next, Int.add_assoc]
  case notched.true.false => split_ifs <;> rfl
  case airBrake.false.true => rfl
  case airBrake.true.true => rfl

/-! ## Places in order -/

/-- The number of a setting is one of the scale. -/
theorem linearNotch_mem (regular : c.IsRegular) :
    c.linearNotch ∈ Set.Icc 0 c.linearHighest ∧
      (c.linearNotch = c.linearHighest ↔ c.emergency = true) := by
  have onWay := isOnWay_brakePosition regular
  have topmost : c.IsOnWay .emergency := regular.notch_nonneg.trans regular.notch_le
  have highest : c.linearHighest = c.placeOf .emergency := rfl
  rw [linearNotch_eq_placeOf regular, ← brakePosition_eq_emergency_iff]
  refine ⟨⟨placeOf_nonneg onWay, ?_⟩, ?_⟩
  · by_cases emergency : c.brakePosition = .emergency
    · rw [emergency, highest]
    · exact (placeOf_lt_linearHighest onWay topmost emergency).le
  · rw [highest, placeOf_inj onWay topmost]

/-- Numbers of settings of one handle are in the order of their positions, and different positions
have different numbers. -/
theorem linearNotch_order (hc : c.IsRegular) (hd : d.IsRegular) (same : c.SameHandle d) :
    (c.linearNotch < d.linearNotch ↔ c.brakePosition.Before d.brakePosition) ∧
      (c.linearNotch = d.linearNotch ↔ c.brakePosition = d.brakePosition) := by
  have onWay := isOnWay_brakePosition hc
  have onWay' := same.isOnWay_iff.mpr (isOnWay_brakePosition hd)
  rw [linearNotch_eq_placeOf hc, linearNotch_eq_placeOf hd, ← same.placeOf_eq]
  exact ⟨placeOf_lt_iff onWay onWay', placeOf_inj onWay onWay'⟩

end Controls

/-- **The linear brake scale numbers positions in their order.** For a setting with a notch of its
handle:

* Its number is from zero to the highest number, and the highest one is that of emergency alone.
* Numbers of settings of one handle are in the order of their positions: notch `0`, the hold brake
  where a notched handle has one, the notches from `1` up, emergency.
* Without emergency two settings have one number if they have the same notch and, on a notched
  handle with a hold brake, at notch `0`, both or neither of them apply it.
* There is no gap: every number up to the highest one is that of a setting of the handle.
* The same numbers are computed with doubles, one kind of handle after the other. -/
theorem brake_scale_orders_positions (v : Viewpoint) (t : Train) (regular : t.controls.IsRegular) :
    let place (u : Train) : Float := TrainQuery.read v u .brakeNotchLinear
    let highest : Float := TrainQuery.read v t .brakeNotchesLinear
    0.0 ≤ place t ∧ place t ≤ highest ∧ (place t = highest ↔ t.controls.emergency = true) ∧
    (∀ u : Train, u.controls.IsRegular → t.controls.SameHandle u.controls →
      (place t < place u ↔ t.controls.brakePosition.Before u.controls.brakePosition) ∧
      (t.controls.emergency = false → u.controls.emergency = false →
        (place t = place u ↔ t.controls.brake.notch = u.controls.brake.notch ∧
          (t.controls.brake.kind = .notched → t.controls.hasHoldBrake = true →
            t.controls.brake.notch = 0 → t.controls.holdBrake = u.controls.holdBrake)))) ∧
    (∀ k : ℤ, 0 ≤ k → k ≤ t.controls.linearHighest →
      ∃ u : Train, u.controls.IsRegular ∧ t.controls.SameHandle u.controls ∧
        place u = Number.ofInt k) ∧
    place t = t.controls.linearNotchInDoubles ∧ highest = t.controls.linearHighestInDoubles := by
  intro place highest
  have read (u : Train) : place u = Number.ofInt u.controls.linearNotch := rfl
  have readHighest : highest = Number.ofInt t.controls.linearHighest := rfl
  have zero : (0.0 : Float) = Number.ofInt 0 := rfl
  clear_value place highest
  have small {u : Train} (hu : u.controls.IsRegular) : u.controls.linearNotch.natAbs < 2 ^ 53 := by
    obtain ⟨⟨low, high⟩, -⟩ := Controls.linearNotch_mem hu
    exact Controls.natAbs_lt_of_le_linearHighest hu low high
  obtain ⟨⟨low, high⟩, top_iff⟩ := Controls.linearNotch_mem regular
  have smallTop : t.controls.linearHighest.natAbs < 2 ^ 53 :=
    Controls.natAbs_lt_of_le_linearHighest regular (low.trans high) le_rfl
  simp only [read, readHighest, zero]
  refine ⟨(Number.ofInt_le_ofInt_iff (by decide) (small regular)).mpr low,
    (Number.ofInt_le_ofInt_iff (small regular) smallTop).mpr high,
    (Number.ofInt_inj (small regular) smallTop).trans top_iff,
    fun u hu same => ⟨?_, fun released released' => ?_⟩, fun k nonneg le => ?_,
    (Controls.linearNotchInDoubles_eq regular).symm,
    (Controls.linearHighestInDoubles_eq regular).symm⟩
  · exact (Number.ofInt_lt_ofInt_iff (small regular) (small hu)).trans
      (Controls.linearNotch_order regular hu same).1
  · exact (Number.ofInt_inj (small regular) (small hu)).trans
      ((Controls.linearNotch_order regular hu same).2.trans
        (Controls.brakePosition_eq_iff same released released'))
  · have notches : 0 ≤ t.controls.brakeNotches := regular.notch_nonneg.trans regular.notch_le
    obtain ⟨p, onWay, rfl⟩ := Controls.exists_placeOf_eq notches nonneg le
    obtain ⟨d, hd, same, rfl⟩ := Controls.exists_brakePosition_eq regular onWay
    refine ⟨{ controls := d }, hd, same, congrArg Number.ofInt ?_⟩
    exact (Controls.linearNotch_eq_placeOf hd).trans (same.placeOf_eq _).symm

/-- With two notches and a hold brake: the hold brake at notch `0` is below notch `1`. -/
theorem brake_scale_orders_positions_hold :
    let held : Train :=
      { controls := { brake.highest := 2, hasHoldBrake := true, holdBrake := true } }
    let first : Train :=
      { controls := { brake.notch := 1, brake.highest := 2, hasHoldBrake := true } }
    TrainQuery.read (.ofWorld {}) held .brakeNotchLinear = Number.ofInt 1 ∧
      TrainQuery.read (.ofWorld {}) held .brakeNotchLinear <
        TrainQuery.read (.ofWorld {}) first .brakeNotchLinear ∧
      TrainQuery.read (.ofWorld {}) held .brakeNotchLinear ≠
        TrainQuery.read (.ofWorld {}) held .brakeNotchesLinear := by
  intro held first
  have regular : held.controls.IsRegular := ⟨by decide, by decide, by decide, by decide⟩
  have regular' : first.controls.IsRegular := ⟨by decide, by decide, by decide, by decide⟩
  have positions : held.controls.brakePosition = .hold ∧ first.controls.brakePosition = .notch 1 :=
    by decide
  obtain ⟨-, -, top_iff, order, -⟩ := brake_scale_orders_positions (.ofWorld {}) held regular
  obtain ⟨before_iff, -⟩ := order first regular' ⟨rfl, rfl, rfl⟩
  have before : held.controls.brakePosition.Before first.controls.brakePosition := by
    rw [positions.1, positions.2]
    exact one_pos
  have number : held.controls.linearNotch = 1 := by decide
  exact ⟨congrArg Number.ofInt number, before_iff.mpr before,
    fun same => Bool.false_ne_true (top_iff.mp same)⟩

end CabScript
