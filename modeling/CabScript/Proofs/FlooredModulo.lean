import CabScript.Arithmetic.Total
import CabScript.Proofs.RoundedArithmetic

/-!
# The floored modulo of doubles

What a number leaves over a whole number of times another one, the quotient rounded down, has the
sign of the other one and is smaller. The doubles are rounded three times on the way: the quotient,
the multiple of the divisor, and what is left. The law is kept exactly if the rounded multiple is
less than a divisor away from the dividend, on the side on which the exact one is, and if a dividend
on the other side of zero is not lost beside the divisor. It is kept by all doubles that are whole
numbers of one unit, if these are small enough together.

## Main definitions

* `Number.IsFlooredRemainder`: the law of the floored modulo.
* `Number.Steps`: the values on the way.

## Main statements

* `Number.Steps.law_iff`: when the law is kept, by the values on the way.
* `Number.isFinite_modulo_iff`, `Number.isFlooredRemainder_modulo_iff`: the same of doubles.
* `Number.value?_modulo_of_units`: whole numbers of one unit.
* `Number.modulo_floored`: all of it.
-/

namespace CabScript

open Float.Model (UnpackedFloat)
open Float.Model.UnpackedFloat

namespace Number

variable {x y z : Float} {u v w p r k : ℚ}

/-! ## Ratios to the divisor -/

namespace NearValue

/-- Rounding keeps the order of ratios. -/
theorem div_le_div (h : NearValue u v) (h' : NearValue p r) (nonzero : w ≠ 0)
    (le : u / w ≤ p / w) : v / w ≤ r / w := by
  rcases nonzero.lt_or_gt with negative | positive
  · rw [div_le_div_right_of_neg negative] at le ⊢
    exact h'.mono h le
  · rw [div_le_div_iff_of_pos_right positive] at le ⊢
    exact h.mono h' le

/-- What is on the grid stays on its side. -/
theorem ratio_nonneg_iff (h : NearValue v u) (grid : OnGrid v) : 0 ≤ u / w ↔ 0 ≤ v / w := by
  constructor
  · contrapose!
    rw [div_neg_iff, div_neg_iff]
    rintro (⟨positive, negative⟩ | ⟨negative, positive⟩)
    · have := h.neg.neg_of_onGrid grid.neg (neg_neg_of_pos positive)
      exact .inl ⟨neg_lt_zero.mp this, negative⟩
    · exact .inr ⟨h.neg_of_onGrid grid negative, positive⟩
  · rw [div_nonneg_iff, div_nonneg_iff]
    rintro (⟨above, divisor⟩ | ⟨below, divisor⟩)
    · exact .inl ⟨h.nonneg above, divisor⟩
    · exact .inr ⟨h.nonpos below, divisor⟩

end NearValue

/-- The difference of numbers on one side of zero is not greater than they are. -/
theorem abs_sub_le_max (side : 0 ≤ v * p) : |v - p| ≤ Max.max |v| |p| := by
  rcases mul_nonneg_iff.mp side with ⟨above, above'⟩ | ⟨below, below'⟩
  · rw [abs_of_nonneg above, abs_of_nonneg above', abs_le]
    constructor <;> linarith [le_max_left v p, le_max_right v p]
  · rw [abs_of_nonpos below, abs_of_nonpos below', abs_le]
    constructor <;> linarith [le_max_left (-v) (-p), le_max_right (-v) (-p)]

/-! ## The steps of the modulo -/

/-- The values on the way to the modulo: of the dividend, the divisor, the rounded quotient and the
rounded multiple of the divisor. -/
structure Steps (v w u p : ℚ) : Prop where
  nonzero : w ≠ 0
  dividend : IsShort v
  divisor : IsShort w
  quotient : NearValue (v / w) u
  multiple : IsShort p
  product : NearValue (w * ⌊u⌋) p

namespace Steps

variable {j : ℤ}

theorem le_ratio (h : Steps v w u p) (short : IsShort (w * j)) (le : j ≤ ⌊u⌋) :
    (j : ℚ) ≤ p / w := by
  have ratio (i : ℤ) : w * i / w = i := mul_div_cancel_left₀ _ h.nonzero
  have := short.nearValue.div_le_div h.product h.nonzero (by rw [ratio, ratio]; exact_mod_cast le)
  rwa [ratio] at this

theorem ratio_le (h : Steps v w u p) (short : IsShort (w * j)) (le : ⌊u⌋ ≤ j) : p / w ≤ j := by
  have ratio (i : ℤ) : w * i / w = i := mul_div_cancel_left₀ _ h.nonzero
  have := h.product.div_le_div short.nearValue h.nonzero (by rw [ratio, ratio]; exact_mod_cast le)
  rwa [ratio] at this

/-- A short multiple is not rounded. -/
theorem multiple_eq (h : Steps v w u p) (short : IsShort (w * ⌊u⌋)) : p = w * ⌊u⌋ :=
  h.product.eq_of_isShort short

theorem isShort_mul_zero : IsShort (w * (0 : ℤ)) :=
  ⟨0, 0, by simp, by decide, by decide⟩

theorem isShort_mul_one (h : Steps v w u p) : IsShort (w * (1 : ℤ)) := by
  rw [Int.cast_one, mul_one]
  exact h.divisor

theorem isShort_mul_neg_one (h : Steps v w u p) : IsShort (w * (-1 : ℤ)) := by
  rw [Int.cast_neg, Int.cast_one, mul_neg_one]
  exact h.divisor.neg

theorem isShort_mul_neg_two (h : Steps v w u p) : IsShort (w * (-2 : ℤ)) := by
  rw [Int.cast_neg, mul_neg]
  exact h.divisor.double.neg

/-- The dividend and the multiple are on the same side of zero. -/
theorem same_side (h : Steps v w u p) : 0 ≤ v * p := by
  have ratios : 0 ≤ v / w * (p / w) := by
    rcases lt_trichotomy ⌊u⌋ 0 with below | zero | above
    · have multiple := h.ratio_le h.isShort_mul_neg_one (by omega)
      have dividend : v / w ≤ 0 := by
        by_contra positive
        exact absurd (Int.floor_nonneg.mpr (h.quotient.nonneg (not_le.mp positive).le)) below.not_ge
      exact mul_nonneg_of_nonpos_of_nonpos dividend (multiple.trans (by norm_num))
    · have multiple := h.multiple_eq (zero ▸ isShort_mul_zero)
      rw [multiple, zero, Int.cast_zero, mul_zero, zero_div, mul_zero]
    · have multiple := h.le_ratio h.isShort_mul_one above
      have dividend : 0 ≤ v / w := by
        by_contra negative
        exact absurd (Int.floor_nonpos (h.quotient.nonpos (not_le.mp negative).le)) above.not_ge
      rw [Int.cast_one] at multiple
      exact mul_nonneg dividend (zero_le_one.trans multiple)
  have scaled : v * p = v / w * (p / w) * w ^ 2 := by
    have := h.nonzero
    field_simp
  rw [scaled]
  positivity

/-- What is left is short if it is smaller than the divisor, unless the divisor itself is added. -/
theorem isShort_sub (h : Steps v w u p) (left : (v - p) / w ∈ Set.Ico 0 1) (added : ⌊u⌋ ≠ -1) :
    IsShort (v - p) := by
  obtain ⟨nonneg, less⟩ := left
  rw [sub_div] at nonneg less
  have size {a : ℚ} (le : 1 ≤ |a / w|) : |v - p| ≤ |a| := by
    have divisor : 0 < |w| := abs_pos.mpr h.nonzero
    rw [← div_le_div_iff_of_pos_right divisor, ← abs_div, ← abs_div, sub_div, abs_of_nonneg nonneg]
    exact less.le.trans le
  -- dividend and multiple are both at least as great as the divisor, unless nothing is taken away
  rcases lt_trichotomy ⌊u⌋ 0 with below | zero | above
  · have multiple := h.ratio_le h.isShort_mul_neg_two (by omega)
    push_cast at multiple
    exact h.dividend.sub h.multiple (size (le_abs.mpr (.inr (by linarith))))
      (size (le_abs.mpr (.inr (by linarith))))
  · have multiple := h.multiple_eq (zero ▸ isShort_mul_zero)
    rw [multiple, zero, Int.cast_zero, mul_zero, sub_zero]
    exact h.dividend
  · have multiple := h.le_ratio h.isShort_mul_one above
    push_cast at multiple
    exact h.dividend.sub h.multiple (size (le_abs.mpr (.inl (by linarith))))
      (size (le_abs.mpr (.inl (by linarith))))

/-- A dividend that is lost beside the divisor has the divisor added. -/
theorem floor_eq_of_lost (h : Steps v w u p) (left : 0 ≤ (v - p) / w) (opposite : v / w < 0)
    (lost : NearValue (v + w) w) : ⌊u⌋ = -1 := by
  have grid : OnGrid (v + w) := sub_neg_eq_add v w ▸ h.dividend.onGrid.sub h.divisor.onGrid.neg
  have sum : 0 ≤ (v + w) / w := by
    rw [← lost.ratio_nonneg_iff grid, div_self h.nonzero]
    exact zero_le_one
  rw [add_div, div_self h.nonzero] at sum
  have one : IsShort (-1) := ⟨-1, 0, by norm_num, by decide, by decide⟩
  have low : -1 ≤ ⌊u⌋ := by
    rw [Int.le_floor]
    push_cast
    exact one.nearValue.mono h.quotient (by linarith)
  have high : ⌊u⌋ ≤ 0 := Int.floor_nonpos (h.quotient.nonpos opposite.le)
  have nonzero : ⌊u⌋ ≠ 0 := by
    intro zero
    rw [h.multiple_eq (zero ▸ isShort_mul_zero), zero, Int.cast_zero, mul_zero, sub_zero] at left
    exact opposite.not_ge left
  omega

/-- **The law of the modulo,** by its steps. -/
theorem law_iff (h : Steps v w u p) (left : NearValue (v - p) r) :
    r / w ∈ Set.Ico 0 1 ↔
      (v - p) / w ∈ Set.Ico 0 1 ∧ (v / w < 0 → ¬ NearValue (v + w) w) := by
  have nonneg_iff : 0 ≤ r / w ↔ 0 ≤ (v - p) / w :=
    left.ratio_nonneg_iff (h.dividend.onGrid.sub h.multiple.onGrid)
  have added (minus : ⌊u⌋ = -1) : v - p = v + w := by
    rw [h.multiple_eq (minus ▸ h.isShort_mul_neg_one), minus]
    push_cast
    ring
  have one : w / w = 1 := div_self h.nonzero
  constructor
  · rintro ⟨nonneg, less⟩
    have nonneg := nonneg_iff.mp nonneg
    refine ⟨⟨nonneg, ?_⟩, fun opposite lost => ?_⟩
    · by_contra notLess
      have := h.divisor.nearValue.div_le_div left h.nonzero (one ▸ not_lt.mp notLess)
      exact less.not_ge (one ▸ this)
    · rw [added (h.floor_eq_of_lost nonneg opposite lost)] at left
      rw [left.unique lost] at less
      exact less.ne one
  · rintro ⟨⟨nonneg, less⟩, kept⟩
    refine ⟨nonneg_iff.mpr nonneg, ?_⟩
    -- only where the divisor itself is added can what is left be too long for a double
    by_cases minus : ⌊u⌋ = -1
    · rw [added minus] at left less
      have opposite : v / w < 0 := by
        rw [add_div, one] at less
        linarith
      have le := left.div_le_div h.divisor.nearValue h.nonzero (one ▸ less.le)
      refine lt_of_le_of_ne (one ▸ le) fun same => ?_
      rw [div_eq_one_iff_eq h.nonzero] at same
      exact kept opposite (same ▸ left)
    · rwa [left.eq_of_isShort (h.isShort_sub ⟨nonneg, less⟩ minus)]

end Steps

/-! ## Whole numbers of one unit -/

/-- The exact remainder is smaller than the divisor. -/
theorem abs_sub_mul_floor_lt (nonzero : w ≠ 0) : |v - w * ⌊v / w⌋| < |w| := by
  have fraction : v - w * ⌊v / w⌋ = w * Int.fract (v / w) := by
    rw [Int.fract, mul_sub, mul_div_cancel₀ v nonzero]
  rw [fraction, abs_mul, abs_of_nonneg (Int.fract_nonneg (v / w))]
  exact mul_lt_of_lt_one_right (abs_pos.mpr nonzero) (Int.fract_lt_one _)

/-- So is what is missing to the next multiple. -/
theorem abs_mul_floor_add_one_sub_lt (nonzero : w ≠ 0) (between : Int.fract (v / w) ≠ 0) :
    |w * (⌊v / w⌋ + 1) - v| < |w| := by
  have fraction : w * (⌊v / w⌋ + 1) - v = w * (1 - Int.fract (v / w)) := by
    rw [Int.fract, mul_sub, mul_sub, mul_div_cancel₀ v nonzero]
    ring
  have less := Int.fract_lt_one (v / w)
  have positive := (Int.fract_nonneg (v / w)).lt_of_ne' between
  rw [fraction, abs_mul, abs_of_nonneg (sub_nonneg.mpr less.le)]
  exact mul_lt_of_lt_one_right (abs_pos.mpr nonzero) (by linarith)

section Units

variable {a b j : ℤ}

/-- **A quotient is not rounded to a whole number** that it is not, if the whole numbers are small
enough. -/
theorem eq_mul_of_nearValue (nonzero : b ≠ 0) (small : b.natAbs ≤ 2 ^ 53)
    (small' : (b * j).natAbs < 2 ^ 53) (h : NearValue (a / b) (j : ℚ)) : a = b * j := by
  have divisor : (0 : ℚ) < |(b : ℚ)| := abs_pos.mpr (by exact_mod_cast nonzero)
  -- how far the dividend is from the multiple
  have apart : |(a : ℚ) / b - j| = |((a - b * j : ℤ) : ℚ)| / |(b : ℚ)| := by
    rw [← abs_div]
    push_cast
    congr 1
    field_simp
  have moved := h.abs_sub_le
  rw [apart, div_le_iff₀ divisor] at moved
  have short : |((a - b * j : ℤ) : ℚ)| < 1 := by
    refine moved.trans_lt ?_
    rw [max_mul_of_nonneg _ _ divisor.le, max_lt_iff]
    constructor
    · have small' : |((b * j : ℤ) : ℚ)| < 2 ^ 53 := by
        rw [← Int.cast_abs, Int.abs_eq_natAbs]
        exact_mod_cast small'
      rw [Int.cast_mul, abs_mul] at small'
      rw [zpow_neg, ← div_eq_mul_inv, div_mul_eq_mul_div, div_lt_one (by positivity)]
      rw [mul_comm]
      exact_mod_cast small'
    · have small : |(b : ℚ)| ≤ 2 ^ (53 : ℤ) := by
        rw [← Int.cast_abs, Int.abs_eq_natAbs]
        exact_mod_cast small
      calc underflow * |(b : ℚ)| ≤ underflow * 2 ^ (53 : ℤ) :=
            mul_le_mul_of_nonneg_left small (zpow_pos two_pos _).le
        _ = 2 ^ (-1022 : ℤ) := by rw [underflow, ← zpow_add₀ two_ne_zero]; congr 1
        _ < 1 := zpow_lt_one_of_neg₀ one_lt_two (by decide)
  have none : |a - b * j| < 1 := by exact_mod_cast short
  exact sub_eq_zero.mp (Int.abs_lt_one_iff.mp none)

theorem ne_zero_of_units {e : ℤ} (hw : w = b * 2 ^ e) (nonzero : w ≠ 0) : b ≠ 0 := by
  rintro rfl
  exact nonzero (hw.trans (by rw [Int.cast_zero, zero_mul]))

/-- The exact remainder is smaller than the divisor. -/
theorem natAbs_sub_mul_floor_lt (nonzero : b ≠ 0) :
    (a - b * ⌊(a / b : ℚ)⌋).natAbs < b.natAbs := by
  have left := abs_sub_mul_floor_lt (v := a) (w := b) (by exact_mod_cast nonzero)
  have left : |a - b * ⌊(a / b : ℚ)⌋| < |b| := by exact_mod_cast left
  rwa [Int.abs_eq_natAbs, Int.abs_eq_natAbs, Nat.cast_lt] at left

/-- The exact multiple is smaller than dividend and divisor together. -/
theorem natAbs_mul_floor_lt (nonzero : b ≠ 0) :
    (b * ⌊(a / b : ℚ)⌋).natAbs < a.natAbs + b.natAbs := by
  have left := natAbs_sub_mul_floor_lt (a := a) nonzero
  omega

theorem natAbs_mul_floor_add_one_lt (nonzero : b ≠ 0) (between : Int.fract (a / b : ℚ) ≠ 0) :
    (b * (⌊(a / b : ℚ)⌋ + 1)).natAbs < a.natAbs + b.natAbs := by
  have left := abs_mul_floor_add_one_sub_lt (v := a) (w := b) (by exact_mod_cast nonzero) between
  have left : |b * (⌊(a / b : ℚ)⌋ + 1) - a| < |b| := by exact_mod_cast left
  generalize b * (⌊(a / b : ℚ)⌋ + 1) = c at left ⊢
  rw [Int.abs_eq_natAbs, Int.abs_eq_natAbs] at left
  omega

/-- The rounded quotient has the floor of the exact one. -/
theorem floor_eq_of_units (nonzero : b ≠ 0) (small : a.natAbs + b.natAbs ≤ 2 ^ 53)
    (h : NearValue (a / b) u) : ⌊u⌋ = ⌊(a / b : ℚ)⌋ := by
  have smaller (j : ℤ) : j.natAbs ≤ (b * j).natAbs := by
    rw [Int.natAbs_mul]
    exact Nat.le_mul_of_pos_left _ (Int.natAbs_pos.mpr nonzero)
  have short : IsShort (⌊(a / b : ℚ)⌋ : ℚ) := by
    refine isShort_intCast ((smaller _).trans ?_)
    have := natAbs_mul_floor_lt (a := a) nonzero
    omega
  rw [Int.floor_eq_iff]
  refine ⟨short.nearValue.mono h (Int.floor_le _), ?_⟩
  -- a whole quotient is not rounded, and any other one is not rounded up to the next whole number
  rcases eq_or_ne (Int.fract (a / b : ℚ)) 0 with whole | between
  · have same := Int.floor_add_fract (a / b : ℚ)
    rw [whole, add_zero] at same
    rw [h.eq_of_isShort (same ▸ short)]
    exact Int.lt_floor_add_one _
  · have next := natAbs_mul_floor_add_one_lt nonzero between
    have short' : IsShort ((⌊(a / b : ℚ)⌋ + 1 : ℤ) : ℚ) :=
      isShort_intCast ((smaller _).trans (by omega))
    have le := h.mono short'.nearValue (by push_cast; exact (Int.lt_floor_add_one _).le)
    rw [← Int.cast_one, ← Int.cast_add]
    refine le.lt_of_ne fun same => ?_
    have multiple := eq_mul_of_nearValue nonzero (by omega) (by omega) (same ▸ h)
    have multiple : (a : ℚ) = b * (⌊(a / b : ℚ)⌋ + 1) := by exact_mod_cast multiple
    have ratio := (div_eq_iff (by exact_mod_cast nonzero)).mpr (multiple.trans (mul_comm ..))
    exact (Int.lt_floor_add_one (a / b : ℚ)).ne ratio

/-- Short numbers of units that are not too great are below the bound of the infinities. -/
theorem abs_units_lt_overflow {n e : ℤ} (short : n.natAbs < 2 ^ 53) (greatest : e ≤ 971) :
    |(n : ℚ) * 2 ^ e| < overflow := by
  have unit : (0 : ℚ) < 2 ^ e := zpow_pos two_pos e
  have mantissa : |(n : ℚ)| ≤ 2 ^ 53 - 1 := by
    rw [← Int.cast_abs, Int.abs_eq_natAbs, Int.cast_natCast]
    have : ((n.natAbs + 1 : ℕ) : ℚ) ≤ (2 ^ 53 : ℕ) := by exact_mod_cast short
    push_cast at this
    linarith
  have power : (2 : ℚ) ^ e ≤ 2 * 2 ^ 970 := by
    rw [← pow_succ', ← zpow_natCast]
    exact zpow_le_zpow_right₀ one_le_two greatest
  have positive : (0 : ℚ) < 2 ^ 970 := pow_pos two_pos 970
  rw [abs_mul, abs_of_pos unit, overflow]
  calc |(n : ℚ)| * 2 ^ e ≤ (2 ^ 53 - 1) * (2 * 2 ^ 970) :=
        mul_le_mul mantissa power unit.le (by norm_num)
    _ = (2 ^ 54 - 2) * 2 ^ 970 := by rw [← mul_assoc]; norm_num
    _ < (2 ^ 54 - 1) * 2 ^ 970 := mul_lt_mul_of_pos_right (by norm_num) positive

end Units

/-! ## The modulo of doubles -/

/-- The law of the floored modulo: what is left is finite, is zero or has the sign of the divisor,
and is smaller than the divisor. -/
def IsFlooredRemainder (w : ℚ) (z : Float) : Prop :=
  ∃ r, value? z = some r ∧ (r = 0 ∨ SignType.sign r = SignType.sign w) ∧ |r| < |w|

/-- The law says in which range the ratio to the divisor is. -/
theorem isFlooredRemainder_iff (hz : value? z = some r) (nonzero : w ≠ 0) :
    IsFlooredRemainder w z ↔ r / w ∈ Set.Ico 0 1 := by
  have size : |r| < |w| ↔ |r / w| < 1 := by
    rw [abs_div, div_lt_one (abs_pos.mpr nonzero)]
  have sign : (r = 0 ∨ SignType.sign r = SignType.sign w) ↔ 0 ≤ r / w := by
    rw [div_nonneg_iff]
    rcases nonzero.lt_or_gt with negative | positive
    · rw [sign_neg negative, sign_eq_neg_one_iff, ← le_iff_eq_or_lt]
      simp [negative.not_ge, negative.le]
    · rw [sign_pos positive, sign_eq_one_iff, eq_comm, ← le_iff_eq_or_lt]
      simp [positive.not_ge, positive.le]
  have law : IsFlooredRemainder w z ↔
      (r = 0 ∨ SignType.sign r = SignType.sign w) ∧ |r| < |w| := by
    constructor
    · rintro ⟨r', hz', law⟩
      obtain rfl := Option.some.inj (hz.symm.trans hz')
      exact law
    · exact fun law => ⟨r, hz, law⟩
  rw [law, size, sign, Set.mem_Ico]
  refine and_congr_right fun nonneg => ?_
  rw [abs_of_nonneg nonneg]

section Doubles

variable (hx : value? x = some v) (hy : value? y = some w) (nonzero : w ≠ 0)

include hy nonzero

theorem modulo_eq (x : Float) : modulo x y = x - y * floor (x / y) := by
  rw [modulo, if_neg]
  rwa [beq_iff_value_eq hy value?_zero]

include hx

theorem steps_of_values (hu : value? (x / y) = some u)
    (hp : value? (y * floor (x / y)) = some p) : Steps v w u p where
  nonzero := nonzero
  dividend := isShort_of_value? hx
  divisor := isShort_of_value? hy
  quotient := (nearest_div hx hy nonzero).nearValue hu
  multiple := isShort_of_value? hp
  product := (nearest_mul hy (value?_floor hu)).nearValue hp

/-- The quotient and the multiple are finite, or the multiple is infinite. -/
theorem values_or_infinity :
    (∃ u p, value? (x / y) = some u ∧ value? (y * floor (x / y)) = some p) ∨
      ∃ s, (y * floor (x / y)).toModel.unpack = .infinity s := by
  rcases (nearest_div hx hy nonzero).value?_or_infinity with ⟨u, hu⟩ | ⟨s, held⟩
  · rcases (nearest_mul hy (value?_floor hu)).value?_or_infinity with ⟨p, hp⟩ | infinite
    · exact .inl ⟨u, p, hu, hp⟩
    · exact .inr infinite
  · rw [floor_of_not_finite (not_isFinite_of_infinity held)]
    exact .inr (unpack_mul_infinity hy nonzero held)

/-- What is left of a finite multiple is finite. -/
theorem exists_value?_modulo (hp : value? (y * floor (x / y)) = some p) :
    ∃ r, value? (modulo x y) = some r ∧ NearValue (v - p) r := by
  rw [modulo_eq hy nonzero]
  have nearest := nearest_sub hx hp
  rcases values_or_infinity hx hy nonzero with ⟨u, p', hu, hp'⟩ | ⟨s, held⟩
  · obtain rfl := Option.some.inj (hp.symm.trans hp')
    have less := (abs_sub_le_max (steps_of_values hx hy nonzero hu hp).same_side).trans_lt
      (max_lt (abs_lt_overflow hx) (abs_lt_overflow hp))
    obtain ⟨r, hr⟩ := nearest.exists_value? less
    exact ⟨r, hr, nearest.nearValue hr⟩
  · cases hp.symm.trans (value?_of_infinity held)

/-- Of an infinite multiple an infinity is left. -/
theorem unpack_modulo_of_infinity {s : Sign}
    (held : (y * floor (x / y)).toModel.unpack = .infinity s) :
    (modulo x y).toModel.unpack = .infinity (-s) := by
  rw [modulo_eq hy nonzero]
  exact unpack_sub_infinity hx held

theorem isNaN_modulo : (modulo x y).isNaN = false := by
  rcases values_or_infinity hx hy nonzero with ⟨u, p, -, hp⟩ | ⟨s, held⟩
  · obtain ⟨r, hr, -⟩ := exists_value?_modulo hx hy nonzero hp
    exact isNaN_of_value? hr
  · exact not_isNaN_of_infinity (unpack_modulo_of_infinity hx hy nonzero held)

/-- **What is left is finite** if the quotient and the exact multiple are below the bound of the
infinities. -/
theorem isFinite_modulo_iff : (modulo x y).isFinite = true ↔
    ∃ u, value? (x / y) = some u ∧ |w * ⌊u⌋| < overflow := by
  constructor
  · intro finite
    rcases values_or_infinity hx hy nonzero with ⟨u, p, hu, hp⟩ | ⟨s, held⟩
    · refine ⟨u, hu, (nearest_mul hy (value?_floor hu)).isFinite_iff.mp ?_⟩
      exact isFinite_of_value? hp
    · rw [not_isFinite_of_infinity (unpack_modulo_of_infinity hx hy nonzero held)] at finite
      cases finite
  · rintro ⟨u, hu, less⟩
    obtain ⟨p, hp⟩ := (nearest_mul hy (value?_floor hu)).exists_value? less
    obtain ⟨r, hr, -⟩ := exists_value?_modulo hx hy nonzero hp
    exact isFinite_of_value? hr

omit nonzero in
/-- A sum with a divisor on the other side is the divisor if it is rounded to it. -/
theorem value?_add_eq_iff (opposite : v / w < 0) :
    value? (x + y) = some w ↔ NearValue (v + w) w := by
  have nearest := nearest_add hx hy
  refine ⟨nearest.nearValue, fun lost => ?_⟩
  have less : |v + w| < overflow := by
    have side : 0 ≤ v * -w := by
      rw [mul_neg, neg_nonneg]
      exact (mul_neg_iff.mpr (div_neg_iff.mp opposite)).le
    have le := abs_sub_le_max side
    rw [sub_neg_eq_add, abs_neg] at le
    exact le.trans_lt (max_lt (abs_lt_overflow hx) (abs_lt_overflow hy))
  obtain ⟨u, hu⟩ := nearest.exists_value? less
  rw [hu, (nearest.nearValue hu).unique lost]

/-- **When the law is kept.** -/
theorem isFlooredRemainder_modulo_iff :
    IsFlooredRemainder w (modulo x y) ↔
      ∃ p, value? (y * floor (x / y)) = some p ∧ (v - p) / w ∈ Set.Ico 0 1 ∧
        (v / w < 0 → value? (x + y) ≠ some w) := by
  rcases values_or_infinity hx hy nonzero with ⟨u, p, hu, hp⟩ | ⟨s, held⟩
  · obtain ⟨r, hr, left⟩ := exists_value?_modulo hx hy nonzero hp
    have kept : (v / w < 0 → value? (x + y) ≠ some w) ↔ (v / w < 0 → ¬ NearValue (v + w) w) :=
      forall_congr' fun opposite => not_congr (value?_add_eq_iff hx hy opposite)
    rw [isFlooredRemainder_iff hr nonzero, (steps_of_values hx hy nonzero hu hp).law_iff left, kept]
    simp only [hp, Option.some.injEq, exists_eq_left']
  · refine iff_of_false ?_ ?_
    · rintro ⟨r, hr, -⟩
      cases hr.symm.trans (value?_of_infinity (unpack_modulo_of_infinity hx hy nonzero held))
    · rintro ⟨p, hp, -⟩
      cases hp.symm.trans (value?_of_infinity held)

section OfUnits

variable {a b e : ℤ} (hv : v = a * 2 ^ e) (hw : w = b * 2 ^ e)
  (small : a.natAbs + b.natAbs ≤ 2 ^ 53)

include hv hw small

/-- The rounded quotient has the floor of the exact one. -/
theorem exists_value?_div_of_units : ∃ u, value? (x / y) = some u ∧ ⌊u⌋ = ⌊v / w⌋ := by
  have divisor := ne_zero_of_units hw nonzero
  have ratio : v / w = a / b := by
    rw [hv, hw, mul_div_mul_right _ _ (zpow_pos two_pos e).ne']
  have nearest := nearest_div hx hy nonzero
  rw [ratio] at nearest ⊢
  have less : |(a / b : ℚ)| < overflow := by
    have one : (1 : ℚ) ≤ |(b : ℚ)| := by exact_mod_cast Int.one_le_abs divisor
    have whole := abs_units_lt_overflow (n := a) (e := 0) (by omega) (by norm_num)
    rw [zpow_zero, mul_one] at whole
    rw [abs_div]
    exact (div_le_self (abs_nonneg _) one).trans_lt whole
  obtain ⟨u, hu⟩ := nearest.exists_value? less
  exact ⟨u, hu, floor_eq_of_units divisor small (nearest.nearValue hu)⟩

omit hx hy in
/-- The exact multiple is a short number of units. -/
theorem exists_multiple_of_units : ∃ n : ℤ, w * ⌊v / w⌋ = n * 2 ^ e ∧ n.natAbs < 2 ^ 53 ∧
    (a - n).natAbs < 2 ^ 53 := by
  have unit : (2 : ℚ) ^ e ≠ 0 := (zpow_pos two_pos e).ne'
  have divisor := ne_zero_of_units hw nonzero
  have size := natAbs_mul_floor_lt (a := a) divisor
  have left := natAbs_sub_mul_floor_lt (a := a) divisor
  refine ⟨b * ⌊(a / b : ℚ)⌋, ?_, by omega, by omega⟩
  rw [hv, hw, mul_div_mul_right _ _ unit]
  push_cast
  ring

variable (least : -1074 ≤ e) (greatest : e ≤ 971)

include least greatest

/-- **Whole numbers of one unit** that are small enough leave the exact remainder. -/
theorem value?_modulo_of_units : value? (modulo x y) = some (v - w * ⌊v / w⌋) := by
  obtain ⟨u, hu, floor⟩ := exists_value?_div_of_units hx hy nonzero hv hw small
  obtain ⟨n, multiple, short, left⟩ := exists_multiple_of_units nonzero hv hw small
  have nearest := nearest_mul hy (value?_floor hu)
  rw [floor] at nearest
  obtain ⟨p, hp⟩ := nearest.exists_value? (multiple ▸ abs_units_lt_overflow short greatest)
  obtain rfl := (nearest.nearValue hp).eq_of_isShort ⟨n, e, multiple, short.le, least⟩
  obtain ⟨r, hr, near⟩ := exists_value?_modulo hx hy nonzero hp
  rw [hr, near.eq_of_isShort]
  refine ⟨a - n, e, ?_, left.le, least⟩
  rw [multiple, hv]
  push_cast
  ring

end OfUnits

end Doubles

/-- **The floored modulo of doubles.** What is left is never a NaN, and finite unless the quotient
or the multiple is too large. It is a floored remainder exactly if the rounded multiple is next to
the dividend, and the dividend is not lost beside the divisor. It is the exact floored remainder of
whole numbers of one unit that are small enough together. -/
theorem modulo_floored (hx : value? x = some v) (hy : value? y = some w) (nonzero : w ≠ 0) :
    ((modulo x y).isNaN = false ∧
      ((modulo x y).isFinite = true ↔ ∃ u, value? (x / y) = some u ∧ |w * ⌊u⌋| < overflow)) ∧
    (IsFlooredRemainder w (modulo x y) ↔
      ∃ p, value? (y * floor (x / y)) = some p ∧ (v - p) / w ∈ Set.Ico 0 1 ∧
        (v / w < 0 → value? (x + y) ≠ some w)) ∧
    ∀ a b e : ℤ, v = a * 2 ^ e → w = b * 2 ^ e → a.natAbs + b.natAbs ≤ 2 ^ 53 → -1074 ≤ e →
      e ≤ 971 →
        value? (modulo x y) = some (v - w * ⌊v / w⌋) ∧ IsFlooredRemainder w (modulo x y) := by
  refine ⟨⟨isNaN_modulo hx hy nonzero, isFinite_modulo_iff hx hy nonzero⟩,
    isFlooredRemainder_modulo_iff hx hy nonzero, fun a b e hv hw small least greatest => ?_⟩
  have left := value?_modulo_of_units hx hy nonzero hv hw small least greatest
  refine ⟨left, (isFlooredRemainder_iff left nonzero).mpr ?_⟩
  have fraction : (v - w * ⌊v / w⌋) / w = Int.fract (v / w) := by
    rw [sub_div, mul_div_cancel_left₀ _ nonzero, Int.fract]
  rw [fraction]
  exact ⟨Int.fract_nonneg _, Int.fract_lt_one _⟩

/-- Seven below zero leaves two over a whole number of threes. -/
theorem modulo_floored_seven :
    value? (ofInt (-7)) = some (-7) ∧ value? (ofInt 3) = some 3 ∧
      value? (modulo (ofInt (-7)) (ofInt 3)) = some 2 ∧
      IsFlooredRemainder 3 (modulo (ofInt (-7)) (ofInt 3)) := by
  have hx : value? (ofInt (-7)) = some (-7) := value?_ofInt (by decide)
  have hy : value? (ofInt 3) = some 3 := value?_ofInt (by decide)
  obtain ⟨left, law⟩ := (modulo_floored hx hy (by norm_num)).2.2 (-7) 3 0 (by norm_num)
    (by norm_num) (by norm_num) (by norm_num) (by norm_num)
  refine ⟨hx, hy, left.trans ?_, law⟩
  norm_num

/-- The law is broken in three ways: the quotient is rounded up to a whole number, a small dividend
is lost beside the divisor, and the quotient is too large. -/
theorem modulo_breaks_law :
    (modulo 13510798882111490.0 3.0 = -2.0 ∧
      ¬ IsFlooredRemainder 3 (modulo 13510798882111490.0 3.0)) ∧
    (modulo (-1e-17) 1.0 = 1.0 ∧ ¬ IsFlooredRemainder 1 (modulo (-1e-17) 1.0)) ∧
    (modulo 1e308 1e-308).isFinite = false := by
  have first : modulo 13510798882111490.0 3.0 = -2.0 := by decide +kernel
  have second : modulo (-1e-17) 1.0 = 1.0 := by decide +kernel
  refine ⟨⟨first, ?_⟩, ⟨second, ?_⟩, by decide +kernel⟩
  · have value : value? (-2.0) = some (-2) :=
      (value?_of_finite (s := .negative) (p := ⟨2 ^ 52, -51, by decide⟩) rfl).trans
        (by norm_num [withSign, Positive.value])
    rw [first, isFlooredRemainder_iff value (by norm_num)]
    norm_num
  · rw [second, isFlooredRemainder_iff value?_one (by norm_num)]
    norm_num

end Number

end CabScript
