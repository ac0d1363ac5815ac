import CabScript.Arithmetic.Total
import CabScript.Proofs.RoundedArithmetic

/-!
# Functions that stay finite

Of the functions that scripts apply to one number, all but one are finite wherever their argument
is. The reciprocal of a number that is not zero is finite exactly if the number is greater than the
1024th binary place: the numbers below it are doubles with fewer bits, and one over them is too
large.

The logarithm above zero and the tangent away from its asymptotes come from outside: `log` is `logBy`
and `tan` is `tanBy` with those of the platform. Here they are parameters, and are assumed to be
finite where they are used.

## Main statements

* `Number.isFinite_sqrt`: a square root is finite.
* `Number.isFinite_reciprocal_iff`: which reciprocals are finite.
* `Number.finite_functions`: all of the functions.
-/

namespace CabScript

open Float.Model.UnpackedFloat (Sign)

namespace Number

variable {x : Float} {v : ℚ} {ln tangent : Float → Float}

theorem isFinite_zero : (0.0 : Float).isFinite = true :=
  isFinite_of_value? value?_zero

/-- A logarithm is finite if it is finite above zero. -/
theorem isFinite_logBy (above : ∀ y : Float, y.isFinite = true → 0.0 < y → (ln y).isFinite = true)
    (hx : value? x = some v) : (logBy ln x).isFinite = true := by
  unfold logBy
  split_ifs with le
  · exact isFinite_zero
  · rw [le_iff_value_le hx value?_zero, not_le] at le
    exact above x (isFinite_of_value? hx) ((lt_iff_value_lt value?_zero hx).mpr le)

/-- A tangent is finite if it is finite away from its asymptotes. -/
theorem isFinite_tanBy (everywhere : ∀ y : Float, y.isFinite = true → (tangent y).isFinite = true)
    (hx : value? x = some v) : (tanBy tangent x).isFinite = true := by
  simp only [tanBy]
  split
  · exact isFinite_zero
  · exact everywhere x (isFinite_of_value? hx)

theorem isFinite_sign (x : Float) : (sign x).isFinite = true := by
  unfold sign
  split_ifs <;> rfl

theorem isFinite_round (hx : value? x = some v) : (round x).isFinite = true := by
  obtain ⟨r, rounded, -⟩ := existsUnique_roundsTo (isFinite_of_value? hx)
  exact isFinite_of_value? (value?_round rounded)

/-- **A square root is finite:** it is smaller than the number, except below four. -/
theorem isFinite_sqrt (hx : value? x = some v) : (sqrt x).isFinite = true := by
  unfold sqrt
  split_ifs with below
  · exact isFinite_zero
  · rw [lt_iff_value_lt hx value?_zero, not_lt] at below
    obtain ⟨q, nearest, nonneg, square⟩ := exists_nearest_sqrt hx below
    rw [nearest.isFinite_iff, abs_of_nonneg nonneg]
    have bound : v < overflow := abs_of_nonneg below ▸ abs_lt_overflow hx
    have large := four_le_overflow
    by_contra notLess
    have : overflow ^ 2 < 4 * overflow :=
      calc overflow ^ 2 ≤ q ^ 2 := pow_le_pow_left₀ (by linarith) (not_lt.mp notLess) 2
        _ ≤ 4 * v := square
        _ < 4 * overflow := by linarith
    nlinarith

/-- **A reciprocal is finite** if the number is zero or greater than the 1024th binary place. -/
theorem isFinite_reciprocal_iff (hx : value? x = some v) :
    (reciprocal x).isFinite = true ↔ v = 0 ∨ 2 ^ (-1024 : ℤ) < |v| := by
  unfold reciprocal
  split_ifs with zero
  · rw [beq_iff_value_eq hx value?_zero] at zero
    exact iff_of_true isFinite_zero (.inl zero)
  · rw [beq_iff_value_eq hx value?_zero] at zero
    rw [(nearest_div value?_one hx zero).isFinite_iff, or_iff_right zero, abs_div, abs_one,
      div_lt_iff₀ (abs_pos.mpr zero)]
    -- the double is a whole number of units, and so is the bound
    obtain ⟨n, hn⟩ := (isShort_of_value? hx).onGrid
    have unit : (0 : ℚ) < 2 ^ (-1074 : ℤ) := zpow_pos two_pos _
    have size : |v| = n.natAbs * 2 ^ (-1074 : ℤ) := by
      rw [hn, abs_mul, abs_of_pos unit, Nat.cast_natAbs, Int.cast_abs]
    have product : overflow * |v| = ((2 ^ 54 - 1) * n.natAbs : ℕ) / 2 ^ 104 := by
      have power : (2 : ℚ) ^ 970 * 2 ^ (-1074 : ℤ) = (2 ^ 104)⁻¹ := by
        rw [← zpow_natCast, ← zpow_natCast, ← zpow_neg, ← zpow_add₀ two_ne_zero]
        rfl
      rw [overflow, size, mul_mul_mul_comm, power, div_eq_mul_inv]
      norm_num
    have bound : (2 : ℚ) ^ (-1024 : ℤ) = (2 ^ 50 : ℕ) * 2 ^ (-1074 : ℤ) := by
      rw [Nat.cast_pow, ← zpow_natCast, Nat.cast_ofNat, ← zpow_add₀ two_ne_zero]
      rfl
    rw [product, bound, size, lt_div_iff₀ (by positivity), one_mul, mul_lt_mul_iff_left₀ unit]
    norm_cast
    omega

/-- **Functions of finite numbers.** If the logarithm and the tangent that are used are finite where
they are used, all functions but the reciprocal are finite; the reciprocal is finite exactly of zero
and of the numbers that are greater than the 1024th binary place. -/
theorem finite_functions (ln tangent : Float → Float)
    (above : ∀ y : Float, y.isFinite = true → 0.0 < y → (ln y).isFinite = true)
    (everywhere : ∀ y : Float, y.isFinite = true → (tangent y).isFinite = true)
    (hx : value? x = some v) :
    (logBy ln x).isFinite = true ∧ (sqrt x).isFinite = true ∧ (tanBy tangent x).isFinite = true ∧
      (sign x).isFinite = true ∧ (round x).isFinite = true ∧
      ((reciprocal x).isFinite = true ↔ v = 0 ∨ 2 ^ (-1024 : ℤ) < |v|) :=
  ⟨isFinite_logBy above hx, isFinite_sqrt hx, isFinite_tanBy everywhere hx, isFinite_sign x,
    isFinite_round hx, isFinite_reciprocal_iff hx⟩

/-- One has the logarithm zero and the tangent `1.5574077246549023`, and is its own reciprocal. -/
theorem finite_functions_one :
    (logBy (fun _ => 0.0) 1.0).isFinite = true ∧
      (tanBy (fun _ => 1.5574077246549023) 1.0).isFinite = true ∧
      (reciprocal 1.0).isFinite = true := by
  obtain ⟨log, -, tan, -, -, reciprocal⟩ :=
    finite_functions (fun _ => 0.0) (fun _ => 1.5574077246549023) (fun _ _ _ => rfl)
      (fun _ _ => rfl) value?_one
  refine ⟨log, tan, reciprocal.mpr (.inr ?_)⟩
  rw [abs_one]
  exact zpow_lt_one_of_neg₀ one_lt_two (by decide)

/-- One over the least double is infinite. -/
theorem reciprocal_overflows :
    (5e-324 : Float).isFinite = true ∧ (reciprocal 5e-324).isFinite = false := by
  decide +kernel

end Number

end CabScript
