import CabScript.Geometry.Point
import CabScript.Proofs.NumberOrder
import CabScript.Proofs.WholeNumbers

/-!
# Numbers without a minus sign

A square has no minus sign, not even where it is zero, and neither has a sum of squares. So squared
distances are fixed by their places in the order of doubles: the one place that two doubles share is
that of the two zeros, and a squared distance is never the negative one.

## Main definitions

* `Number.IsPlus`: the double is no number, or it has no minus sign.

## Main statements

* `Number.isPlus_unpack_pack`, `Number.isNaN_unpack_pack`: what is packed keeps its sign, and stays
  a number.
* `Number.eq_of_isPlus`: two such numbers are equal if neither is below the other.
* `Point.isPlus_normSq`: squared distances.
-/

namespace CabScript

open Float.Model (Format UnpackedFloat)
open Float.Model.UnpackedFloat

namespace Number

/-- The double is no number, or it has no minus sign. -/
def IsPlus : UnpackedFloat → Prop
  | .infinity s | .zero s | .finite s _ _ _ => s = .positive
  | .notANumber => True

variable {u v : UnpackedFloat} {x y : Float}

/-! ## What is packed -/

/-- The sign is read off the first bit. -/
theorem isPlus_unpack {bits : BitVec Format.binary64.numBits} (plus : unpackSign bits = 0#1) :
    IsPlus (unpack .binary64 bits) := by
  simp only [unpack, plus]
  split_ifs
  · exact rfl
  · trivial
  all_goals exact rfl

/-- **What is packed keeps its sign.** -/
theorem isPlus_unpack_pack (plus : IsPlus u) : IsPlus (Float.Model.pack u).unpack := by
  apply isPlus_unpack
  show unpackSign (UnpackedFloat.pack .binary64 u) = 0#1
  cases u with
  | notANumber => exact unpackSign_packComponents .positive _ _
  | infinity s =>
    obtain rfl : s = .positive := plus
    exact unpackSign_packComponents .positive _ _
  | zero s =>
    obtain rfl : s = .positive := plus
    exact unpackSign_packComponents .positive _ _
  | finite s m e pos =>
    obtain rfl : s = .positive := plus
    simp only [UnpackedFloat.pack]
    split_ifs <;> exact unpackSign_packComponents .positive _ _

/-- Only what has the greatest exponent is held as an infinity or a NaN. -/
theorem isNaN_unpack_of_exponent {bits : BitVec Format.binary64.numBits}
    (exponent : unpackExponent bits ≠ -1#11) : (unpack .binary64 bits).isNaN = false := by
  simp only [unpack, if_neg exponent]
  split_ifs <;> rfl

/-- **What is packed stays a number.** -/
theorem isNaN_unpack_pack (number : u.isNaN = false) :
    (Float.Model.pack u).unpack.isNaN = false := by
  show (unpack .binary64 (UnpackedFloat.pack .binary64 u)).isNaN = false
  cases u with
  | notANumber => cases number
  | infinity s =>
    rw [UnpackedFloat.pack, unpack_packedInfinity]
    rfl
  | zero s =>
    apply isNaN_unpack_of_exponent
    rw [UnpackedFloat.pack, packedZero, unpackExponent_packComponents]
    decide
  | finite s m e pos =>
    simp only [UnpackedFloat.pack]
    split_ifs with large normal
    · rw [unpack_packedInfinity]
      rfl
    · apply isNaN_unpack_of_exponent
      rw [unpackExponent_packComponents]
      intro same
      have field := congrArg BitVec.toNat same
      have last : (-1#11).toNat = 2047 := rfl
      have width : 2 ^ Format.binary64.exponentBits = 2048 := rfl
      rw [BitVec.toNat_ofNat, last, width] at field
      omega
    · apply isNaN_unpack_of_exponent
      rw [unpackExponent_packComponents]
      decide

/-! ## What is computed -/

theorem isPlus_roundWithAccuracy (m : ℕ) (e : ℤ) (accuracy : Accuracy) :
    IsPlus (roundWithAccuracy .binary64 .positive m e accuracy) := by
  simp only [roundWithAccuracy]
  split_ifs <;> exact rfl

theorem isPlus_normalize {i : ℤ} (nonneg : 0 ≤ i) (e : ℤ) :
    IsPlus (normalize .binary64 i e .positive) := by
  rcases nonneg.eq_or_lt with rfl | pos
  · exact rfl
  · rw [normalize_eq_round pos.ne', signOf, if_neg nonneg.not_gt]
    exact isPlus_roundWithAccuracy _ _ _

/-- **A square has no minus sign.** -/
theorem isPlus_mul_self (u : UnpackedFloat) : IsPlus (UnpackedFloat.mul .binary64 u u) := by
  have same : ∀ s : Sign, s * s = .positive := by
    intro s
    cases s <;> rfl
  cases u with
  | notANumber => trivial
  | infinity s => exact same s
  | zero s => exact same s
  | finite s m e pos =>
    simp only [UnpackedFloat.mul, same]
    exact isPlus_roundWithAccuracy _ _ _

/-- **Neither has a sum,** if its parts have none. -/
theorem isPlus_add (hu : IsPlus u) (hv : IsPlus v) : IsPlus (UnpackedFloat.add .binary64 u v) := by
  cases u <;> cases v <;> simp only [IsPlus] at hu hv <;> subst_vars <;>
    try first | trivial | exact rfl
  simp only [UnpackedFloat.add]
  apply isPlus_normalize
  simp only [Sign.apply]
  positivity

/-- Where there is no minus sign there is a root. -/
theorem isNaN_sqrt (plus : IsPlus x.toModel.unpack) (number : x.isNaN = false) :
    x.sqrt.isNaN = false := by
  apply isNaN_unpack_pack
  change x.toModel.unpack.isNaN = false at number
  generalize x.toModel.unpack = u at plus number
  cases u with
  | notANumber => cases number
  | infinity s =>
    obtain rfl : s = .positive := plus
    rfl
  | zero s => rfl
  | finite s m e pos =>
    obtain rfl : s = .positive := plus
    simp only [UnpackedFloat.sqrt, roundWithAccuracy]
    split_ifs <;> rfl

/-! ## Equal numbers -/

theorem unpack_of_isNaN (nan : x.isNaN = true) : x.toModel.unpack = .notANumber := by
  change x.toModel.unpack.isNaN = true at nan
  generalize x.toModel.unpack = u at nan
  cases u <;> first | rfl | cases nan

/-- There is one NaN. -/
theorem eq_of_isNaN (hx : x.isNaN = true) (hy : y.isNaN = true) : x = y :=
  toModel_unpack_injective ((unpack_of_isNaN hx).trans (unpack_of_isNaN hy).symm)

theorem isNaN_sqrt_of_isNaN (nan : x.isNaN = true) : x.sqrt.isNaN = true := by
  show (Float.Model.pack (UnpackedFloat.sqrt .binary64 x.toModel.unpack)).unpack.isNaN = true
  rw [unpack_of_isNaN nan]
  rfl

/-- Without a minus sign, no place is shared. -/
theorem eq_of_rank_eq_of_isPlus (hu : IsPlus u) (hv : IsPlus v) (number : u.isNaN = false)
    (number' : v.isNaN = false) (same : rank u = rank v) : u = v := by
  cases u <;> cases v <;> simp only [IsPlus] at hu hv <;> subst_vars <;>
    simp_all [rank, UnpackedFloat.isNaN]

/-- **Numbers without a minus sign** are equal if neither is below the other. -/
theorem eq_of_isPlus (hx : IsPlus x.toModel.unpack) (hy : IsPlus y.toModel.unpack) (le : x ≤ y)
    (ge : y ≤ x) : x = y := by
  obtain ⟨number, number', le⟩ := le_iff.mp le
  obtain ⟨-, -, ge⟩ := le_iff.mp ge
  exact toModel_unpack_injective
    (eq_of_rank_eq_of_isPlus hx hy number number' (le_antisymm le ge))

end Number

namespace Point

/-- A squared distance has no minus sign. -/
theorem isPlus_normSq (p : Point) : Number.IsPlus p.normSq.toModel.unpack := by
  have square : ∀ x : Float, Number.IsPlus (x * x).toModel.unpack := fun x =>
    Number.isPlus_unpack_pack (Number.isPlus_mul_self _)
  have sum : ∀ x y : Float, Number.IsPlus x.toModel.unpack → Number.IsPlus y.toModel.unpack →
      Number.IsPlus (x + y).toModel.unpack := fun x y hx hy =>
    Number.isPlus_unpack_pack (Number.isPlus_add hx hy)
  exact sum _ _ (sum _ _ (square _) (square _)) (square _)

end Point

end CabScript
