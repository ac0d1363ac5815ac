import CabScript.Proofs.ExactValue
import CabScript.Proofs.NumberSign

/-!
# Doubles cut to 32 bits

A double is cut to an integer of 32 bits: the fraction of its value is dropped, whatever its sign,
and what lies beyond an end of the range ends there, the infinities included. A NaN is cut to zero.

## Main definitions

* `truncated`: the integer part of a number.
* `Number.CutsTo`: the integer of 32 bits that a double is cut to.

## Main statements

* `Exact.truncate_eq`: dropping the remainder of a division drops the fraction of the value.
* `Number.cutsTo_toInt32`, `Number.CutsTo.unique`: there is one such integer, and it is computed.
-/

namespace CabScript

open Float.Model.UnpackedFloat (Sign)

/-- The integer part of a number: rounding toward zero. -/
def truncated (v : ℚ) : ℤ :=
  if 0 ≤ v then ⌊v⌋ else ⌈v⌉

namespace Exact

variable (x : Exact)

theorem value_eq_div : x.value = x.numerator / x.denominator := by
  have positive : (x.denominator : ℚ) ≠ 0 := by exact_mod_cast x.denominator_pos.ne'
  exact eq_div_of_mul_eq positive x.value_mul_denominator

theorem value_nonneg_iff : 0 ≤ x.value ↔ 0 ≤ x.numerator := by
  have positive : (0 : ℚ) < x.denominator := by exact_mod_cast x.denominator_pos
  rw [value_eq_div, le_div_iff₀ positive, zero_mul, Int.cast_nonneg_iff]

/-- **Dropping the remainder drops the fraction of the value.** -/
theorem truncate_eq : x.truncate = truncated x.value := by
  rw [truncate, truncated]
  split_ifs with sign
  · rw [value_eq_div, Rat.floor_intCast_div_natCast,
      Int.tdiv_eq_ediv_of_nonneg (x.value_nonneg_iff.mp sign)]
  · have negative : 0 ≤ -x.numerator := by
      have := mt x.value_nonneg_iff.mpr sign
      omega
    rw [value_eq_div, Rat.ceil_intCast_div_natCast, ← Int.tdiv_eq_ediv_of_nonneg negative,
      Int.neg_tdiv, neg_neg]

end Exact

namespace Number

/-- The integer of 32 bits that a double is cut to. -/
structure CutsTo (x : Float) (i : ℤ) : Prop where
  nan : x.isNaN = true → i = 0
  finite : ∀ v, value? x = some v → i = Max.max (-2 ^ 31) (Min.min (2 ^ 31 - 1) (truncated v))
  above : x.toModel.unpack = .infinity .positive → i = 2 ^ 31 - 1
  below : x.toModel.unpack = .infinity .negative → i = -2 ^ 31

variable {x : Float} {i j : ℤ}

/-- A double is a NaN or an infinity, or it has a value. -/
theorem isNaN_or_value?_or_infinity (x : Float) :
    x.isNaN = true ∨ (∃ v, value? x = some v) ∨ ∃ s, x.toModel.unpack = .infinity s := by
  by_cases finite : x.isFinite = true
  · exact .inr (.inl (Option.isSome_iff_exists.mp (isSome_value?_iff.mpr finite)))
  · change ¬ x.toModel.unpack.isFinite = true at finite
    show x.toModel.unpack.isNaN = true ∨ _
    cases held : x.toModel.unpack with
    | notANumber => exact .inl rfl
    | infinity s => exact .inr (.inr ⟨s, rfl⟩)
    | zero | finite =>
      rw [held] at finite
      exact absurd rfl finite

/-- **A double is cut to an integer.** -/
theorem cutsTo_toInt32 (x : Float) : CutsTo x (toInt32 x) where
  nan nan := by
    rw [toInt32, unpack_of_isNaN nan]
  finite v value := by
    obtain ⟨exact, held, rfl⟩ := Option.map_eq_some_iff.mp value
    rw [← exact.truncate_eq]
    unfold Exact.ofFloat? at held
    split at held
    case h_1 unpacked =>
      obtain rfl := Option.some.inj held
      rw [toInt32, unpacked]
      rfl
    case h_2 unpacked =>
      obtain rfl := Option.some.inj held
      rw [toInt32, unpacked]
      rfl
    case h_3 | h_4 => cases held
  above held := by
    rw [toInt32, held]
    rfl
  below held := by
    rw [toInt32, held]
    rfl

/-- **It is cut to no other one.** -/
theorem CutsTo.unique (hi : CutsTo x i) (hj : CutsTo x j) : i = j := by
  rcases isNaN_or_value?_or_infinity x with nan | ⟨v, value⟩ | ⟨_ | _, held⟩
  · rw [hi.nan nan, hj.nan nan]
  · rw [hi.finite v value, hj.finite v value]
  · rw [hi.below held, hj.below held]
  · rw [hi.above held, hj.above held]

end Number

end CabScript
