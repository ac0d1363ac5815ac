import CabScript.Cab.Panel
import CabScript.Proofs.NearestInteger
import CabScript.Rolling.Train

/-!
# Cars and readings that operands select

An operand is a double and selects a car, or a reading of the panel, by the integer nearest to it.
Here this is stated for every double, with the integer given by what it is and not by how it is
computed. A machine computes it with words of 64 bits: the rounded operand becomes a word that ends
at the ends of its range, and the number of cars is added to a word below zero. Neither of the two
makes a difference, since a list has fewer entries than there are words: an integer beyond the range
selects nothing, and neither does the end of the range, and the sum does not leave the range.

## Main definitions

* `Number.selectInWords?`, `Panel.stateInWords`: the lookups in words.

## Main statements

* `Number.select?_ofNat`: the entry that the double of an index selects.
* `Number.selectInWords?_eq`, `Panel.stateInWords_eq`: words make no difference.
* `operand_lookup_exact`: what every operand selects.
-/

namespace CabScript

namespace Number

/-! ## Entries at integers -/

section Entry

variable {α : Type} {l : List α} {r : ℤ} {n : ℕ}

theorem entry?_of_lt {i : ℕ} (h : i < l.length) : entry? l i = some l[i] := by
  unfold entry?
  rw [if_neg (Int.natCast_nonneg i).not_gt, Int.toNat_natCast]
  exact List.getElem?_eq_getElem h

theorem entry?_eq_none (out : r < 0 ∨ l.length ≤ r) : entry? l r = none := by
  unfold entry?
  split_ifs with before
  · rfl
  · exact List.getElem?_eq_none (by omega)

/-- An entry has two numbers, one from each end. -/
theorem entryFromEitherEnd?_of_lt {i : ℕ} (h : i < l.length)
    (names : r = i ∨ r = i - l.length) : entryFromEitherEnd? l r = some l[i] := by
  have place : (if r < 0 then r + l.length else r) = i := by
    split <;> omega
  rw [entryFromEitherEnd?, place, entry?_of_lt h]

theorem entryFromEitherEnd?_eq_none (out : r < -l.length ∨ l.length ≤ r) :
    entryFromEitherEnd? l r = none := by
  rw [entryFromEitherEnd?]
  apply entry?_eq_none
  split <;> omega

/-! ## Entries at doubles of whole numbers -/

/-- A number that is nearest to an integer from zero on selects the entry at it. -/
theorem select?_of_nearest {x : Float} {i : ℤ} (nearest : nearestInt? x = some i) (nonneg : 0 ≤ i) :
    select? l x = l[i.toNat]? := by
  rw [select?, nearest, Option.bind_some]
  simp only [entryFromEitherEnd?, entry?, if_neg nonneg.not_gt]

/-- The double of a number of at most 53 bits selects the entry at this index. -/
theorem select?_ofNat_of_lt (short : n < 2 ^ 53) : select? l (ofNat n) = l[n]? :=
  select?_of_nearest (nearestInt?_ofNat short) (Int.natCast_nonneg n)

/-- **The double of an index selects the entry at the index,** if there is one. -/
theorem select?_ofNat (countable : l.length ≤ 2 ^ 53) (n : ℕ) : select? l (ofNat n) = l[n]? := by
  rcases Nat.lt_or_ge n (2 ^ 53) with short | large
  · exact select?_ofNat_of_lt short
  · -- neither the index nor what it is rounded to has an entry
    rw [List.getElem?_eq_none (countable.trans large)]
    cases nearest : nearestInt? (ofNat n) with
    | none => rw [select?, nearest, Option.bind_none]
    | some i =>
      have le := le_of_nearestInt?_ofNat large nearest
      rw [select?_of_nearest nearest (by omega)]
      exact List.getElem?_eq_none (by omega)

/-- What is selected is an entry. -/
theorem mem_of_select? {x : Float} {a : α} (selected : select? l x = some a) : a ∈ l := by
  obtain ⟨i, -, found⟩ := Option.bind_eq_some_iff.mp selected
  unfold entryFromEitherEnd? at found
  generalize (if i < 0 then i + (l.length : ℤ) else i) = place at found
  unfold entry? at found
  split at found
  · cases found
  · exact List.mem_of_getElem? found

/-! ## Entries at words -/

/-- The sum of two words, if it is in their range. -/
def checkedSum? (a b : Int64) : Option Int64 :=
  if a.toBitVec.saddOverflow b.toBitVec then none else some (a + b)

/-- The entry that an operand selects, computed with words of 64 bits; `none` alone says that a sum
has left their range. -/
def selectInWords? (l : List α) (x : Float) : Option (Option α) :=
  if x.isFinite then do
    let index := (round x).toModel.toInt64
    let place ← if index < 0 then checkedSum? index (.ofNat l.length) else some index
    return if 0 ≤ place ∧ place < .ofNat l.length then l[place.toUInt64.toNat]? else none
  else some none

/-- The number of entries can be added to a word below zero. -/
theorem checkedSum?_length {a : Int64} (neg : a < 0) (short : l.length < 2 ^ 63) :
    ∃ sum, checkedSum? a (.ofNat l.length) = some sum ∧ sum.toInt = a.toInt + l.length := by
  have below : a.toInt < 0 := Int64.lt_iff_toInt_lt.mp neg
  have least := a.le_toInt
  have length : (Int64.ofNat l.length).toInt = l.length := Int64.toInt_ofNat_of_lt short
  have fits : a.toBitVec.saddOverflow (Int64.ofNat l.length).toBitVec = false := by
    simp only [BitVec.saddOverflow, Int64.toInt_toBitVec, length]
    simp
    omega
  refine ⟨_, by rw [checkedSum?, fits, if_neg Bool.false_ne_true], ?_⟩
  rw [Int64.toInt_add, length]
  exact Int.bmod_eq_of_le (by omega) (by omega)

/-- A word selects the entry at its integer. -/
theorem entryAtWord_eq (short : l.length < 2 ^ 63) (place : Int64) :
    (if 0 ≤ place ∧ place < .ofNat l.length then l[place.toUInt64.toNat]? else none) =
      entry? l place.toInt := by
  have length : (Int64.ofNat l.length).toInt = l.length := Int64.toInt_ofNat_of_lt short
  have start_iff : 0 ≤ place ↔ 0 ≤ place.toInt := Int64.le_iff_toInt_le
  have end_iff : place < .ofNat l.length ↔ place.toInt < l.length := by
    rw [Int64.lt_iff_toInt_lt, length]
  split_ifs with inRange
  · have word : place.toUInt64.toNat = place.toInt.toNat :=
      Int64.toNat_toUInt64_of_le inRange.1
    rw [word, entry?, if_neg (start_iff.mp inRange.1).not_gt]
  · rw [start_iff, end_iff] at inRange
    exact (entry?_eq_none (by omega)).symm

/-- What is beyond the words selects nothing, and neither do the ends of their range. -/
theorem entryFromEitherEnd?_clamped (short : l.length < 2 ^ 63) (r : ℤ) :
    entryFromEitherEnd? l (Max.max (-2 ^ 63) (Min.min (2 ^ 63 - 1) r)) =
      entryFromEitherEnd? l r := by
  by_cases inRange : -2 ^ 63 ≤ r ∧ r ≤ 2 ^ 63 - 1
  · rw [min_eq_right inRange.2, max_eq_right inRange.1]
  · rw [entryFromEitherEnd?_eq_none (by omega), entryFromEitherEnd?_eq_none (by omega)]

/-- **Words make no difference:** no sum leaves their range, and the entry is the one that is
selected. -/
theorem selectInWords?_eq (short : l.length < 2 ^ 63) (x : Float) :
    selectInWords? l x = some (select? l x) := by
  rw [selectInWords?, select?]
  cases finite : x.isFinite with
  | false => rw [nearestInt?_of_not_finite finite]; rfl
  | true =>
    obtain ⟨r, rounded, -⟩ := existsUnique_roundsTo finite
    have word := toInt64_of_value? (value?_round rounded)
    rw [nearestInt?_eq_some_iff.mpr rounded, Option.bind_some, ← entryFromEitherEnd?_clamped short,
      ← word, entryFromEitherEnd?]
    simp only [if_true]
    generalize (round x).toModel.toInt64 = index
    have neg_iff : index < 0 ↔ index.toInt < 0 := Int64.lt_iff_toInt_lt
    by_cases neg : index < 0
    · obtain ⟨place, sum, value⟩ := checkedSum?_length neg short
      rw [if_pos neg, if_pos (neg_iff.mp neg), sum, ← value, ← entryAtWord_eq short]
      rfl
    · rw [if_neg neg, if_neg (mt neg_iff.mpr neg), ← entryAtWord_eq short]
      rfl

end Entry

end Number

/-! ## Readings of the panel -/

namespace Panel

open Number

variable {p : Panel} {x : Float} {r : ℤ}

/-- The state at an operand, computed with a rounded operand and a word of 64 bits. -/
def stateInWords (p : Panel) (operand : Float) : Float :=
  if !p.enabled || !operand.isFinite then 0.0
  else
    let index := Number.round operand
    if index < 0.0 then 0.0
    else
      match p.readings[index.toModel.toUInt64.toNat]? with
      | some reading => ofInt reading
      | none => 0.0

theorem state_of_disabled (disabled : p.enabled = false) (x : Float) : p.state x = 0.0 := by
  rw [state, disabled]
  rfl

theorem state_of_not_finite (p : Panel) (infinite : x.isFinite = false) : p.state x = 0.0 := by
  rw [state, nearestInt?_of_not_finite infinite, Option.bind_none, ite_self]

theorem state_of_roundsTo (enabled : p.enabled = true) (rounded : RoundsTo x r) :
    p.state x = ((Number.entry? p.readings r).map ofInt).getD 0.0 := by
  rw [state, if_pos enabled, nearestInt?_eq_some_iff.mpr rounded, Option.bind_some]
  cases entry? p.readings r <;> rfl

/-- **Words make no difference:** an index beyond their range, like the end of the range, is beyond
the panel. -/
theorem stateInWords_eq (short : p.readings.length < 2 ^ 64) (x : Float) :
    p.stateInWords x = p.state x := by
  rw [stateInWords]
  cases enabled : p.enabled with
  | false => exact (state_of_disabled enabled x).symm
  | true =>
    cases finite : x.isFinite with
    | false => exact (p.state_of_not_finite finite).symm
    | true =>
      obtain ⟨r, rounded, -⟩ := existsUnique_roundsTo finite
      have value := value?_round rounded
      have zero : value? 0.0 = some 0 := by
        have exact : Exact.ofFloat? 0.0 = some ⟨0, 0⟩ := rfl
        rw [value?, exact, Option.map_some, Exact.value, Int.cast_zero, zero_mul]
      have before_iff : Number.round x < 0.0 ↔ r < 0 := by
        rw [lt_iff_value_lt value zero, Int.cast_lt_zero]
      rw [state_of_roundsTo enabled rounded, entry?]
      simp only [before_iff, toUInt64_of_value? value, Bool.not_true, Bool.or_false,
        Bool.false_eq_true, if_false]
      split_ifs with before
      · rfl
      · by_cases inRange : r.toNat ≤ 2 ^ 64 - 1
        · rw [min_eq_right inRange]
          cases p.readings[r.toNat]? <;> rfl
        · rw [List.getElem?_eq_none (by omega), List.getElem?_eq_none (by omega)]
          rfl

end Panel

/-! ## All operands -/

open Number

/-- **What operands select.**

* A NaN and an infinity select no car, and no reading.
* Any other operand is rounded to one integer, half a unit to the even one; to zero, if it is at
  most half a unit from zero, on either side.
* This integer selects the car that it is the place of, or that it is the place of less the number
  of cars. Any other integer selects no car.
* While the panel is on, it selects the reading that it is the place of, and `0.0` if there is none,
  as there is none below zero. While the panel is off, everything selects `0.0`.
* The same is selected by a computation with words of 64 bits, in which no sum leaves their
  range. -/
theorem operand_lookup_exact (t : Train) (p : Panel) (x : Float) :
    (x.isFinite = false → t.car? x = none ∧ p.state x = 0.0) ∧
    (x.isFinite = true → ∃! r, RoundsTo x r) ∧
    (∀ v, value? x = some v → |v| ≤ 1 / 2 → RoundsTo x 0) ∧
    (∀ r, RoundsTo x r →
      (∀ (i : ℕ) (h : i < t.cars.length), r = i ∨ r = i - t.cars.length →
        t.car? x = some t.cars[i]) ∧
      (r < -t.cars.length ∨ t.cars.length ≤ r → t.car? x = none) ∧
      (p.enabled = true →
        (∀ (i : ℕ) (h : i < p.readings.length), r = i → p.state x = ofInt p.readings[i]) ∧
        (r < 0 ∨ p.readings.length ≤ r → p.state x = 0.0))) ∧
    (p.enabled = false → p.state x = 0.0) ∧
    (t.cars.length < 2 ^ 63 → selectInWords? t.cars x = some (t.car? x)) ∧
    (p.readings.length < 2 ^ 64 → p.stateInWords x = p.state x) := by
  refine ⟨fun infinite => ⟨?_, p.state_of_not_finite infinite⟩, existsUnique_roundsTo,
    fun v value near => ⟨v, value, .zero near⟩, fun r rounded => ⟨?_, ?_, fun enabled => ⟨?_, ?_⟩⟩,
    fun disabled => Panel.state_of_disabled disabled x, fun short => selectInWords?_eq short x,
    fun short => Panel.stateInWords_eq short x⟩
  · rw [Train.car?, select?, nearestInt?_of_not_finite infinite, Option.bind_none]
  · intro i h names
    rw [Train.car?, select?, nearestInt?_eq_some_iff.mpr rounded, Option.bind_some,
      entryFromEitherEnd?_of_lt h names]
  · intro out
    rw [Train.car?, select?, nearestInt?_eq_some_iff.mpr rounded, Option.bind_some,
      entryFromEitherEnd?_eq_none out]
  · rintro i h rfl
    rw [Panel.state_of_roundsTo enabled rounded, entry?_of_lt h]
    rfl
  · intro out
    rw [Panel.state_of_roundsTo enabled rounded, entry?_eq_none out]
    rfl

/-- Halfway numbers: `-1.5` is the second car from the rear, `1.5` is no car of two, and `-0.5` is
the first reading. -/
theorem operand_lookup_exact_halfway :
    let t : Train := { cars := [{}, {}] }
    let p : Panel := ⟨true, [7]⟩
    RoundsTo (-1.5) (-2) ∧ t.car? (-1.5) = some t.cars[0] ∧
      RoundsTo 1.5 2 ∧ t.car? 1.5 = none ∧
      RoundsTo (-0.5) 0 ∧ p.state (-0.5) = ofInt 7 ∧
      selectInWords? t.cars (-1.5) = some (t.car? (-1.5)) := by
  intro t p
  have low : RoundsTo (-1.5) (-2) := nearestInt?_eq_some_iff.mp rfl
  have high : RoundsTo 1.5 2 := nearestInt?_eq_some_iff.mp rfl
  have start : RoundsTo (-0.5) 0 := nearestInt?_eq_some_iff.mp rfl
  obtain ⟨-, -, -, fromLow, -, words, -⟩ := operand_lookup_exact t p (-1.5)
  obtain ⟨-, -, -, fromHigh, -⟩ := operand_lookup_exact t p 1.5
  obtain ⟨-, -, -, fromStart, -⟩ := operand_lookup_exact t p (-0.5)
  have two : t.cars.length = 2 := rfl
  exact ⟨low, (fromLow _ low).1 0 (by decide) (.inr rfl), high,
    (fromHigh _ high).2.1 (.inr (by rw [two]; decide)), start,
    ((fromStart _ start).2.2 rfl).1 0 (by decide) rfl, words (by rw [two]; decide)⟩

end CabScript
