import CabScript.Proofs.WholeNumbers

/-!
# Sums of whole numbers as doubles

The sum of the doubles of two integers is the double of their sum, if all three have at most 53
bits. The doubles are added at the lesser one of their exponents, where both mantissas are multiples
of a power of two. Rounding takes this power out again: only zeros are shifted out of the mantissa.

## Main statements

* `Number.round_binary64_scaled`: a power of two in the mantissa makes no difference.
* `Number.ofInt_add_ofInt`: the sum of the doubles of two integers.
-/

namespace CabScript

open Float.Model (Format UnpackedFloat totalExponent)
open Float.Model.UnpackedFloat

namespace Number

variable {n : ℕ} {i j : ℤ}

/-- Zeros that are shifted out of a mantissa leave no trace. -/
theorem shiftRight_mul_two_pow (m amount : ℕ) :
    (⟨m * 2 ^ amount, false, false⟩ : ExtendedMantissa) >>> amount = ⟨m, false, false⟩ := by
  show amount.repeat ExtendedMantissa.shiftRightOne _ = _
  induction amount generalizing m with
  | zero => simp [Nat.repeat]
  | succ amount ih =>
    have shifted : m * 2 ^ (amount + 1) = 2 * m * 2 ^ amount := by ring
    rw [Nat.repeat, shifted, ih, ExtendedMantissa.shiftRightOne]
    simp

theorem log2_mul_two_pow (pos : 0 < n) (k : ℕ) : (n * 2 ^ k).log2 = n.log2 + k := by
  induction k with
  | zero => simp
  | succ k ih =>
    have doubled : n * 2 ^ (k + 1) = 2 * (n * 2 ^ k) := by ring
    rw [doubled, Nat.log2_two_mul (Nat.mul_pos pos (Nat.two_pow_pos k)).ne', ih, Nat.add_assoc]

/-- **A power of two in the mantissa** that the exponent takes out again makes no difference. -/
theorem round_binary64_scaled (s : Sign) (pos : 0 < n) (short : n < 2 ^ 53) (k : ℕ) :
    UnpackedFloat.round .binary64 s (n * 2 ^ k) (-k) = UnpackedFloat.round .binary64 s n 0 := by
  have bits : n.log2 < 53 := (Nat.log2_lt pos.ne').mpr short
  have full := filled_mem_fullMantissas pos short
  have target : Format.targetExponent .binary64 (totalExponent (n * 2 ^ k) (-k)) =
      (n.log2 : ℤ) - 52 := by
    simp only [Format.targetExponent, totalExponent, Format.mantissaBits, Format.minExponent,
      log2_mul_two_pow pos]
    omega
  rw [round_binary64_of_lt s pos short]
  rcases Nat.le_or_ge k (52 - n.log2) with fill | drop
  · -- the mantissa is filled up as it is without the power, by fewer zeros
    have filled : decreaseExponent (n * 2 ^ k) (-k) ((n.log2 : ℤ) - 52) =
        (n * 2 ^ (52 - n.log2), (n.log2 : ℤ) - 52) := by
      have amount : (-(k : ℤ) - ((n.log2 : ℤ) - 52)).toNat = 52 - n.log2 - k := by omega
      rw [decreaseExponent, amount, Nat.shiftLeft_eq, mul_assoc, ← Nat.pow_add,
        Nat.add_sub_cancel' fill, Prod.mk.injEq]
      exact ⟨rfl, by omega⟩
    simp only [UnpackedFloat.round, target, filled]
    exact roundWithAccuracy_of_full s full (by omega)
  · -- the mantissa has zeros too many
    have kept : decreaseExponent (n * 2 ^ k) (-k) ((n.log2 : ℤ) - 52) = (n * 2 ^ k, -(k : ℤ)) := by
      have amount : (-(k : ℤ) - ((n.log2 : ℤ) - 52)).toNat = 0 := by omega
      rw [decreaseExponent, amount]
      simp
    have shifted : shiftToTargetExponent .binary64 (n * 2 ^ k) (-k) .exact =
        (⟨n * 2 ^ (52 - n.log2), false, false⟩, (n.log2 : ℤ) - 52) := by
      have amount : ((n.log2 : ℤ) - 52 - -(k : ℤ)).toNat = k - (52 - n.log2) := by omega
      have zeros : n * 2 ^ k = n * 2 ^ (52 - n.log2) * 2 ^ (k - (52 - n.log2)) := by
        rw [mul_assoc, ← Nat.pow_add, Nat.add_sub_cancel' drop]
      rw [shiftToTargetExponent, target, shiftToExponent, amount, zeros, Prod.mk.injEq]
      exact ⟨shiftRight_mul_two_pow _ _, by omega⟩
    simp only [UnpackedFloat.round, target, kept]
    exact roundWithAccuracy_of_exact s shifted full (by omega)

/-! ## Doubles of integers -/

/-- The double of an integer before it is packed. -/
def unpackedInt (i : ℤ) : UnpackedFloat :=
  UnpackedFloat.normalize .binary64 i 0 .positive

/-- A power of two in the mantissa makes no difference, whatever the sign is. -/
theorem normalize_scaled (short : i.natAbs < 2 ^ 53) (k : ℕ) :
    UnpackedFloat.normalize .binary64 (i * 2 ^ k) (-k) .positive = unpackedInt i := by
  rcases eq_or_ne i 0 with rfl | nonzero
  · rw [zero_mul]
    rfl
  · have power : (0 : ℤ) < 2 ^ k := by positivity
    have abs : (i * 2 ^ k).natAbs = i.natAbs * 2 ^ k := by
      rw [Int.natAbs_mul, Int.natAbs_pow]
      rfl
    have sign : signOf (i * 2 ^ k) = signOf i := by
      simp only [signOf, mul_neg_iff, power, power.not_gt, and_true, and_false, false_or]
    rw [normalize_eq_round (mul_ne_zero nonzero power.ne'), abs, sign, unpackedInt,
      normalize_eq_round nonzero]
    exact round_binary64_scaled (signOf i) (Int.natAbs_pos.mpr nonzero) short k

/-- It is a zero, or its mantissa is the integer times a power of two. -/
theorem unpackedInt_cases (short : i.natAbs < 2 ^ 53) :
    i = 0 ∧ unpackedInt i = .zero .positive ∨
      ∃ s m, ∃ k : ℕ, ∃ full : m ∈ fullMantissas,
        unpackedInt i = .finite s m (-k) (pos_of_full full) ∧ k ≤ 52 ∧ s.apply m = i * 2 ^ k := by
  rcases eq_or_ne i 0 with rfl | nonzero
  · exact .inl ⟨rfl, rfl⟩
  · have pos : 0 < i.natAbs := Int.natAbs_pos.mpr nonzero
    have bits : i.natAbs.log2 < 53 := (Nat.log2_lt pos.ne').mpr short
    have exponent : -((52 - i.natAbs.log2 : ℕ) : ℤ) = (i.natAbs.log2 : ℤ) - 52 := by omega
    refine .inr ⟨signOf i, _, 52 - i.natAbs.log2, filled_mem_fullMantissas pos short, ?_,
      Nat.sub_le _ _, ?_⟩
    · simp only [unpackedInt, normalize_eq_round nonzero, exponent]
      exact round_binary64_of_lt (signOf i) pos short
    · have split : (signOf i).apply (i.natAbs * 2 ^ (52 - i.natAbs.log2) : ℕ) =
          (signOf i).apply i.natAbs * 2 ^ (52 - i.natAbs.log2) := by
        cases signOf i <;> simp [Sign.apply]
      rw [split, signOf_apply_natAbs]

/-- What is packed is unpacked again. -/
theorem unpack_ofInt (short : i.natAbs < 2 ^ 53) : (ofInt i).toModel.unpack = unpackedInt i := by
  show (Float.Model.pack (unpackedInt i)).unpack = unpackedInt i
  rcases unpackedInt_cases short with ⟨rfl, -⟩ | ⟨s, m, k, full, held, small, -⟩
  · rfl
  · rw [held, unpack_pack s full (by omega), if_pos (by omega)]

/-! ## Sums -/

/-- Shifting the mantissa to a lesser exponent. -/
theorem apply_shifted (s : Sign) (m k' k : ℕ) (le : k' ≤ k) (scaled : s.apply m = i * 2 ^ k') :
    s.apply (decreaseExponent m (-k') (-k)).1 = i * 2 ^ k := by
  have amount : (-(k' : ℤ) - -(k : ℤ)).toNat = k - k' := by omega
  have split : s.apply (m * 2 ^ (k - k') : ℕ) = s.apply m * 2 ^ (k - k') := by
    cases s <;> simp [Sign.apply]
  rw [decreaseExponent, amount, Nat.shiftLeft_eq, split, scaled, mul_assoc, ← pow_add,
    Nat.add_sub_cancel' le]

/-- Integers are added as unpacked doubles. -/
theorem add_unpackedInt (hi : i.natAbs < 2 ^ 53) (hj : j.natAbs < 2 ^ 53)
    (sum : (i + j).natAbs < 2 ^ 53) :
    UnpackedFloat.add .binary64 (unpackedInt i) (unpackedInt j) = unpackedInt (i + j) := by
  rcases unpackedInt_cases hi with ⟨rfl, zero⟩ | ⟨s, m, k, full, held, -, scaled⟩
  · rw [zero, zero_add]
    rcases unpackedInt_cases hj with ⟨rfl, zero'⟩ | ⟨s', m', k', full', held', -, -⟩
    · rw [zero']
      rfl
    · rw [held']
      rfl
  · rcases unpackedInt_cases hj with ⟨rfl, zero'⟩ | ⟨s', m', k', full', held', -, scaled'⟩
    · rw [held, zero', add_zero, held]
      rfl
    · -- both mantissas are taken to the lesser exponent
      obtain ⟨l, hl, le, le'⟩ : ∃ l : ℕ, Min.min (-(k : ℤ)) (-k') = -(l : ℤ) ∧ k ≤ l ∧ k' ≤ l :=
        ⟨Max.max k k', by omega, by omega, by omega⟩
      rw [held, held', UnpackedFloat.add]
      simp only [hl]
      rw [apply_shifted s m k l le scaled, apply_shifted s' m' k' l le' scaled', ← add_mul]
      exact normalize_scaled sum l

/-- **The sum of the doubles of two integers** is the double of their sum, if all three have at most
53 bits. -/
theorem ofInt_add_ofInt (hi : i.natAbs < 2 ^ 53) (hj : j.natAbs < 2 ^ 53)
    (sum : (i + j).natAbs < 2 ^ 53) : ofInt i + ofInt j = ofInt (i + j) := by
  show Float.ofModel (.pack (UnpackedFloat.add .binary64 (ofInt i).toModel.unpack
    (ofInt j).toModel.unpack)) = Float.ofModel (.pack (unpackedInt (i + j)))
  rw [unpack_ofInt hi, unpack_ofInt hj, add_unpackedInt hi hj sum]

end Number

end CabScript
