import CabScript.Number.Exact
import Mathlib

/-!
# The order of doubles

Doubles are compared by sign, exponent and mantissa in turn, so they are ordered as the triples of
these are; both zeros have the same place, and a NaN has none. All laws of the comparisons that
other modules need come from that one place in a linear order.

## Main definitions

* `Number.rank`: the place of a double.

## Main statements

* `Number.lt_iff`, `Number.le_iff`: doubles compare as their places do.
* `Number.not_lt_iff`, `Number.le_trans`: numbers other than NaN are in linear order.
* `Number.eq_of_not_lt`: no two numbers above zero have the same place.
-/

namespace CabScript

open Float.Model (UnpackedFloat)
open Float.Model.UnpackedFloat (Sign)

/-- No two doubles are unpacked to the same. -/
theorem toModel_unpack_injective : Function.Injective fun x : Float => x.toModel.unpack := by
  intro x y same
  obtain ⟨⟨⟨bits⟩, valid⟩⟩ := x
  obtain ⟨⟨⟨bits'⟩, valid'⟩⟩ := y
  obtain rfl : bits = bits' := (UnpackedFloat.unpack_inj_of_valid valid valid').mp same
  rfl

namespace Number

/-- The place of a double among all doubles; that of a NaN says nothing. -/
def rank : UnpackedFloat → ℤ ×ₗ ℤ ×ₗ ℤ
  | .infinity .negative => toLex (-2, toLex (0, 0))
  | .finite .negative mantissa exponent _ => toLex (-1, toLex (-exponent, -mantissa))
  | .zero _ | .notANumber => toLex (0, toLex (0, 0))
  | .finite .positive mantissa exponent _ => toLex (1, toLex (exponent, mantissa))
  | .infinity .positive => toLex (2, toLex (0, 0))

/-! ## Comparisons are comparisons of places -/

section Compare

variable {a b : UnpackedFloat}

theorem compare_eq_lt_iff :
    a.compare b = some .lt ↔ a.isNaN = false ∧ b.isNaN = false ∧ rank a < rank b := by
  have signs : compare Sign.negative Sign.positive = .lt := rfl
  rcases a with (_ | _) | _ | _ | ⟨_ | _, m, e, hm⟩ <;>
    rcases b with (_ | _) | _ | _ | ⟨_ | _, m', e', hm'⟩ <;>
    simp [UnpackedFloat.compare, UnpackedFloat.isNaN, rank, Prod.Lex.toLex_lt_toLex, signs,
      compare_lt_iff_lt, compare_gt_iff_gt, Ordering.then_eq_lt, Ordering.swap_then]

theorem compare_eq_eq_iff :
    a.compare b = some .eq ↔ a.isNaN = false ∧ b.isNaN = false ∧ rank a = rank b := by
  have negatives : compare Sign.negative Sign.negative = .eq := rfl
  have positives : compare Sign.positive Sign.positive = .eq := rfl
  rcases a with (_ | _) | _ | _ | ⟨_ | _, m, e, hm⟩ <;>
    rcases b with (_ | _) | _ | _ | ⟨_ | _, m', e', hm'⟩ <;>
    simp [UnpackedFloat.compare, UnpackedFloat.isNaN, rank, negatives, positives,
      Ordering.then_eq_eq]

theorem isLE_compare_iff :
    (a.compare b).any (·.isLE) = true ↔
      a.isNaN = false ∧ b.isNaN = false ∧ rank a ≤ rank b := by
  have cases : (a.compare b).any (·.isLE) = true ↔
      a.compare b = some .lt ∨ a.compare b = some .eq := by
    rcases a.compare b with _ | (_ | _ | _) <;> simp
  rw [cases, compare_eq_lt_iff, compare_eq_eq_iff, le_iff_lt_or_eq, and_or_left, and_or_left]

end Compare

variable {x y z : Float}

theorem lt_iff : x < y ↔
    x.isNaN = false ∧ y.isNaN = false ∧ rank x.toModel.unpack < rank y.toModel.unpack := by
  refine Iff.trans ?_ compare_eq_lt_iff
  show decide (x.toModel < y.toModel) = true ↔ _
  rw [decide_eq_true_iff]
  show (x.toModel.unpack.compare y.toModel.unpack == some .lt) = true ↔ _
  rw [beq_iff_eq]

theorem le_iff : x ≤ y ↔
    x.isNaN = false ∧ y.isNaN = false ∧ rank x.toModel.unpack ≤ rank y.toModel.unpack := by
  refine Iff.trans ?_ isLE_compare_iff
  show decide (x.toModel ≤ y.toModel) = true ↔ _
  rw [decide_eq_true_iff]
  rfl

theorem beq_iff : (x == y) = true ↔
    x.isNaN = false ∧ y.isNaN = false ∧ rank x.toModel.unpack = rank y.toModel.unpack := by
  refine Iff.trans ?_ compare_eq_eq_iff
  show (x.toModel.unpack.compare y.toModel.unpack == some .eq) = true ↔ _
  rw [beq_iff_eq]

/-! ## The laws of the order -/

/-- Of two numbers one is at most the other. -/
theorem not_lt_iff (hx : x.isNaN = false) (hy : y.isNaN = false) : ¬ x < y ↔ y ≤ x := by
  simp only [lt_iff, le_iff, hx, hy, true_and, not_lt]

theorem le_self (hx : x.isNaN = false) : x ≤ x :=
  le_iff.mpr ⟨hx, hx, le_rfl⟩

theorem le_of_lt (h : x < y) : x ≤ y := by
  obtain ⟨hx, hy, less⟩ := lt_iff.mp h
  exact le_iff.mpr ⟨hx, hy, less.le⟩

theorem le_trans (h : x ≤ y) (h' : y ≤ z) : x ≤ z := by
  obtain ⟨hx, -, le⟩ := le_iff.mp h
  obtain ⟨-, hz, le'⟩ := le_iff.mp h'
  exact le_iff.mpr ⟨hx, hz, le.trans le'⟩

theorem not_lt_of_le (h : x ≤ y) : ¬ y < x := by
  obtain ⟨hx, hy, -⟩ := le_iff.mp h
  exact (not_lt_iff hy hx).mpr h

theorem lt_of_le_of_lt (h : x ≤ y) (h' : y < z) : x < z := by
  obtain ⟨hx, -, le⟩ := le_iff.mp h
  obtain ⟨-, hz, less⟩ := lt_iff.mp h'
  exact lt_iff.mpr ⟨hx, hz, le.trans_lt less⟩

theorem lt_of_lt_of_le (h : x < y) (h' : y ≤ z) : x < z := by
  obtain ⟨hx, -, less⟩ := lt_iff.mp h
  obtain ⟨-, hz, le⟩ := le_iff.mp h'
  exact lt_iff.mpr ⟨hx, hz, less.trans_le le⟩

/-- What is not above a number is not above what the number is not above. -/
theorem not_lt_trans (hy : y.isNaN = false) (h : ¬ x < y) (h' : ¬ y < z) : ¬ x < z := by
  intro less
  obtain ⟨-, hz, -⟩ := lt_iff.mp less
  exact h (lt_of_lt_of_le less ((not_lt_iff hy hz).mp h'))

theorem lt_irrefl (x : Float) : ¬ x < x := by
  intro h
  obtain ⟨-, -, less⟩ := lt_iff.mp h
  exact less.false

/-! ## Numbers above zero -/

/-- Only zeros share a place with another number. -/
theorem eq_of_rank_eq {a b : UnpackedFloat} (above : toLex (0, toLex (0, 0)) < rank a)
    (same : rank a = rank b) : a = b := by
  rcases a with (_ | _) | _ | _ | ⟨_ | _, m, e, hm⟩ <;>
    rcases b with (_ | _) | _ | _ | ⟨_ | _, m', e', hm'⟩ <;>
    simp_all [rank, Prod.Lex.toLex_lt_toLex]

/-- **Of two numbers above zero** one is below the other, if they are not the same. -/
theorem eq_of_not_lt (hx : 0.0 < x) (hy : 0.0 < y) (notLess : ¬ x < y) (notGreater : ¬ y < x) :
    x = y := by
  obtain ⟨-, hx', above⟩ := lt_iff.mp hx
  obtain ⟨-, hy', -⟩ := lt_iff.mp hy
  obtain ⟨-, -, ge⟩ := le_iff.mp ((not_lt_iff hx' hy').mp notLess)
  obtain ⟨-, -, le⟩ := le_iff.mp ((not_lt_iff hy' hx').mp notGreater)
  exact toModel_unpack_injective (eq_of_rank_eq above (le_antisymm le ge))

end Number

end CabScript
