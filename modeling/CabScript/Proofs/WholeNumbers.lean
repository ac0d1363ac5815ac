import CabScript.Number.Exact
import Mathlib

/-!
# Whole numbers as doubles

A whole number of at most 53 bits is a double as it is: nothing is rounded. A greater one may be
rounded, but never below the numbers of 53 bits. What is rounded is then packed into fields of bits,
and unpacked again from them.

## Main definitions

* `Number.fullMantissas`: the mantissas in which all 53 bits count.
* `Number.signOf`: the sign that an integer is rounded with.

## Main statements

* `Number.round_binary64_of_lt`, `Number.round_binary64_of_le`: how a whole number is rounded.
* `Number.unpack_pack`: a rounded number is held as it is, or it is infinite.
* `Number.normalize_eq_round`: integers are rounded by sign and absolute value.
-/

namespace CabScript

open Float.Model (Format UnpackedFloat totalExponent)
open Float.Model.UnpackedFloat

namespace Number

/-- The mantissas in which all 53 bits count. -/
def fullMantissas : Set ℕ :=
  Set.Ico (2 ^ 52) (2 ^ 53)

variable {m n : ℕ} {e : ℤ}

theorem pos_of_full (full : m ∈ fullMantissas) : 0 < m :=
  (Nat.two_pow_pos 52).trans_le full.1

theorem log2_of_full (full : m ∈ fullMantissas) : m.log2 = 52 :=
  (Nat.log2_eq_iff (pos_of_full full).ne').mpr full

/-! ## Rounding -/

/-- A full mantissa is not shifted. -/
theorem shiftToTargetExponent_of_full (full : m ∈ fullMantissas) (least : -1074 ≤ e) :
    shiftToTargetExponent .binary64 m e .exact = (⟨m, false, false⟩, e) := by
  have target : Format.targetExponent .binary64 (totalExponent m e) = e := by
    simp only [Format.targetExponent, totalExponent, log2_of_full full, Format.mantissaBits,
      Format.minExponent]
    omega
  rw [shiftToTargetExponent, target, shiftToExponent, Int.sub_self]
  simp only [Int.toNat_zero, Nat.cast_zero, Int.add_zero]
  rfl

/-- A mantissa that has got one bit too many when it was rounded is shifted by this bit. -/
theorem shiftToTargetExponent_carried (least : -1074 ≤ e) :
    shiftToTargetExponent .binary64 (2 ^ 53) e .exact = (⟨2 ^ 52, false, false⟩, e + 1) := by
  have target : Format.targetExponent .binary64 (totalExponent (2 ^ 53) e) = e + 1 := by
    simp only [Format.targetExponent, totalExponent, Nat.log2_two_pow, Format.mantissaBits,
      Format.minExponent]
    omega
  have amount : (e + 1 - e).toNat = 1 := by omega
  rw [shiftToTargetExponent, target, shiftToExponent, amount]
  rfl

/-- What is shifted to a full mantissa without a trace is not rounded. -/
theorem roundWithAccuracy_of_exact (s : Sign) {e' : ℤ}
    (shifted : shiftToTargetExponent .binary64 n e' .exact = (⟨m, false, false⟩, e))
    (full : m ∈ fullMantissas) (least : -1074 ≤ e) :
    roundWithAccuracy .binary64 s n e' .exact = .finite s m e (pos_of_full full) := by
  have kept : (⟨m, false, false⟩ : ExtendedMantissa).roundedMantissa = m := rfl
  unfold roundWithAccuracy
  rw [shifted]
  simp only
  rw [kept, shiftToTargetExponent_of_full full least]
  exact dif_neg (pos_of_full full).ne'

/-- A full mantissa is not rounded. -/
theorem roundWithAccuracy_of_full (s : Sign) (full : m ∈ fullMantissas) (least : -1074 ≤ e) :
    roundWithAccuracy .binary64 s m e .exact = .finite s m e (pos_of_full full) :=
  roundWithAccuracy_of_exact s (shiftToTargetExponent_of_full full least) full least

/-- A number with fewer bits is filled up with zeros. -/
theorem filled_mem_fullMantissas (pos : 0 < n) (short : n < 2 ^ 53) :
    n * 2 ^ (52 - n.log2) ∈ fullMantissas := by
  obtain ⟨low, high⟩ := (Nat.log2_eq_iff pos.ne').mp rfl
  have bits : n.log2 < 53 := (Nat.log2_lt pos.ne').mpr short
  constructor
  · calc 2 ^ 52 = 2 ^ n.log2 * 2 ^ (52 - n.log2) := by
          rw [← Nat.pow_add, Nat.add_sub_cancel' (by omega)]
      _ ≤ n * 2 ^ (52 - n.log2) := Nat.mul_le_mul_right _ low
  · calc n * 2 ^ (52 - n.log2) < 2 ^ (n.log2 + 1) * 2 ^ (52 - n.log2) :=
          Nat.mul_lt_mul_of_pos_right high (Nat.two_pow_pos _)
      _ = 2 ^ 53 := by rw [← Nat.pow_add]; congr 1; omega

/-- **A number of at most 53 bits is not rounded.** -/
theorem round_binary64_of_lt (s : Sign) (pos : 0 < n) (short : n < 2 ^ 53) :
    UnpackedFloat.round .binary64 s n 0 =
      .finite s (n * 2 ^ (52 - n.log2)) ((n.log2 : ℤ) - 52)
        (pos_of_full (filled_mem_fullMantissas pos short)) := by
  have bits : n.log2 < 53 := (Nat.log2_lt pos.ne').mpr short
  have target : Format.targetExponent .binary64 (totalExponent n 0) = (n.log2 : ℤ) - 52 := by
    simp only [Format.targetExponent, totalExponent, Format.mantissaBits, Format.minExponent]
    omega
  have filled : decreaseExponent n 0 ((n.log2 : ℤ) - 52) =
      (n * 2 ^ (52 - n.log2), (n.log2 : ℤ) - 52) := by
    have amount : (0 - ((n.log2 : ℤ) - 52)).toNat = 52 - n.log2 := by omega
    rw [decreaseExponent, amount, Nat.shiftLeft_eq, Prod.mk.injEq]
    exact ⟨rfl, by omega⟩
  simp only [UnpackedFloat.round, target, filled]
  exact roundWithAccuracy_of_full s (filled_mem_fullMantissas pos short) (by omega)

/-- Shifting to the right divides the mantissa. -/
theorem mantissa_shiftRight (mantissa : ExtendedMantissa) (amount : ℕ) :
    (mantissa >>> amount).mantissa = mantissa.mantissa / 2 ^ amount := by
  show (amount.repeat ExtendedMantissa.shiftRightOne mantissa).mantissa = _
  induction amount with
  | zero => simp [Nat.repeat]
  | succ amount ih =>
    rw [Nat.repeat, ExtendedMantissa.shiftRightOne, ih, Nat.div_div_eq_div_mul, Nat.pow_succ]

/-- Rounding adds at most one. -/
theorem roundedMantissa_mem (mantissa : ExtendedMantissa) :
    mantissa.roundedMantissa ∈ Set.Icc mantissa.mantissa (mantissa.mantissa + 1) := by
  obtain ⟨m, _ | _, _ | _⟩ := mantissa <;>
    simp [ExtendedMantissa.roundedMantissa, ExtendedMantissa.accuracy, Accuracy.roundToNearestEven]
  omega

/-- What is left of a greater number without the bits that do not fit is full. -/
theorem shifted_mem_fullMantissas (large : 2 ^ 53 ≤ n) :
    n / 2 ^ (n.log2 - 52) ∈ fullMantissas := by
  have nonzero : n ≠ 0 := by omega
  have bits : 53 ≤ n.log2 := (Nat.le_log2 nonzero).mpr large
  obtain ⟨low, high⟩ := (Nat.log2_eq_iff nonzero).mp rfl
  constructor
  · rw [Nat.le_div_iff_mul_le (Nat.two_pow_pos _), ← Nat.pow_add, Nat.add_sub_cancel' (by omega)]
    exact low
  · rw [Nat.div_lt_iff_lt_mul (Nat.two_pow_pos _), ← Nat.pow_add]
    rwa [show 53 + (n.log2 - 52) = n.log2 + 1 by omega]

/-- Rounding ends with a full mantissa, if it comes to one or to the number after the last one. -/
theorem roundWithAccuracy_of_shifted (s : Sign) {e' : ℤ} {mantissa : ExtendedMantissa}
    (shifted : shiftToTargetExponent .binary64 n e .exact = (mantissa, e')) (least : -1074 ≤ e')
    (rounded : mantissa.roundedMantissa ∈ Set.Icc (2 ^ 52) (2 ^ 53)) :
    ∃ m e'' pos, roundWithAccuracy .binary64 s n e .exact = .finite s m e'' pos ∧
      m ∈ fullMantissas ∧ e' ≤ e'' := by
  obtain ⟨low, high⟩ := rounded
  unfold roundWithAccuracy
  simp only [shifted]
  rcases high.lt_or_eq with short | carried
  · have full : mantissa.roundedMantissa ∈ fullMantissas := ⟨low, short⟩
    simp only [shiftToTargetExponent_of_full full least]
    exact ⟨_, e', pos_of_full full, dif_neg (pos_of_full full).ne', full, le_rfl⟩
  · simp only [carried, shiftToTargetExponent_carried least]
    exact ⟨2 ^ 52, e' + 1, Nat.two_pow_pos 52, rfl, ⟨le_rfl, by omega⟩, by omega⟩

/-- **A greater number stays above the numbers of 53 bits** when it is rounded. -/
theorem round_binary64_of_le (s : Sign) (large : 2 ^ 53 ≤ n) :
    ∃ m e pos, UnpackedFloat.round .binary64 s n 0 = .finite s m e pos ∧
      m ∈ fullMantissas ∧ 1 ≤ e := by
  have bits : 53 ≤ n.log2 := (Nat.le_log2 (by omega)).mpr large
  have target : Format.targetExponent .binary64 (totalExponent n 0) = (n.log2 : ℤ) - 52 := by
    simp only [Format.targetExponent, totalExponent, Format.mantissaBits, Format.minExponent]
    omega
  have unfilled : decreaseExponent n 0 ((n.log2 : ℤ) - 52) = (n, 0) := by
    have amount : (0 - ((n.log2 : ℤ) - 52)).toNat = 0 := by omega
    rw [decreaseExponent, amount]
    rfl
  have shifted : shiftToTargetExponent .binary64 n 0 .exact =
      ((⟨n, false, false⟩ : ExtendedMantissa) >>> (n.log2 - 52), (n.log2 : ℤ) - 52) := by
    have amount : ((n.log2 : ℤ) - 52 - 0).toNat = n.log2 - 52 := by omega
    rw [shiftToTargetExponent, target, shiftToExponent, amount, Prod.mk.injEq]
    exact ⟨rfl, by omega⟩
  obtain ⟨low, high⟩ := shifted_mem_fullMantissas large
  obtain ⟨low', high'⟩ :=
    roundedMantissa_mem ((⟨n, false, false⟩ : ExtendedMantissa) >>> (n.log2 - 52))
  rw [mantissa_shiftRight] at low' high'
  obtain ⟨m, e, pos, rounded, full, le⟩ := roundWithAccuracy_of_shifted s shifted (by omega)
    ⟨low.trans low', high'.trans high⟩
  simp only [UnpackedFloat.round, target, unfilled]
  exact ⟨m, e, pos, rounded, full, by omega⟩

/-! ## What is held of a rounded number -/

theorem ofBitVec_toBitVec (s : Sign) : Sign.ofBitVec s.toBitVec = s := by
  cases s <;> rfl

/-- The sign is the first bit. -/
theorem unpackSign_packComponents (s : Sign) (exponent : BitVec 11) (mantissa : BitVec 52) :
    @unpackSign .binary64 (packComponents .binary64 s exponent mantissa) = s.toBitVec := by
  show (s.toBitVec ++ exponent ++ mantissa).extractLsb' 63 1 = s.toBitVec
  rw [BitVec.extractLsb'_append_eq_of_le (by decide),
    BitVec.extractLsb'_append_eq_of_le (by decide)]
  cases s <;> rfl

/-- A number and the fields of 11 bits and of 52 bits that hold it. -/
theorem unpack_packComponents (s : Sign) {exponent : ℕ} (normal : exponent ∈ Set.Ioo 0 2047)
    (full : m ∈ fullMantissas) :
    unpack .binary64 (packComponents .binary64 s (BitVec.ofNat 11 exponent) (BitVec.ofNat 52 m)) =
      .finite s m ((exponent : ℤ) - 1075) (pos_of_full full) := by
  obtain ⟨low, high⟩ := normal
  obtain ⟨low', high'⟩ := full
  have field : (BitVec.ofNat 11 exponent).toNat = exponent := by
    rw [BitVec.toNat_ofNat]
    omega
  have notLast : BitVec.ofNat 11 exponent ≠ -1#11 := by
    intro same
    have := congrArg BitVec.toNat same
    rw [field] at this
    exact absurd this high.ne
  have notFirst : BitVec.ofNat 11 exponent ≠ 0#11 := by
    intro same
    have := congrArg BitVec.toNat same
    rw [field] at this
    exact absurd this low.ne'
  -- the leading bit is not written
  have leading : (1#1 ++ BitVec.ofNat 52 m).toNat = m := by
    rw [BitVec.toNat_append, ← Nat.shiftLeft_add_eq_or_of_lt (BitVec.isLt _), BitVec.toNat_ofNat]
    show 2 ^ 52 + m % 2 ^ 52 = m
    omega
  have bias : (Format.exponentBias .binary64 : ℤ) +
      Format.mantissaBitsWithoutImplicit .binary64 = 1075 := by decide
  simp only [unpack, unpackMantissa_packComponents, unpackExponent_packComponents,
    unpackSign_packComponents, ofBitVec_toBitVec, notLast, notFirst, if_false, bias]
  simp only [field, leading]

theorem unpack_packedInfinity (s : Sign) :
    unpack .binary64 (packedInfinity .binary64 s) = .infinity s := by
  simp only [unpack, packedInfinity, unpackMantissa_packComponents, unpackExponent_packComponents,
    unpackSign_packComponents, ofBitVec_toBitVec, if_true]
  rfl

/-- **A rounded number is held as it is,** or it is infinite. -/
theorem unpack_pack (s : Sign) (full : m ∈ fullMantissas) (least : -1074 ≤ e) :
    (Float.Model.pack (.finite s m e (pos_of_full full))).unpack =
      if e ≤ 971 then .finite s m e (pos_of_full full) else .infinity s := by
  show unpack .binary64 (pack .binary64 _) = _
  have bias : e + Format.exponentBias .binary64 + Format.mantissaBitsWithoutImplicit .binary64 =
      e + 1075 := by
    rw [Int.add_assoc]
    rfl
  have bits : m.log2 + 1 = Format.mantissaBits .binary64 := by
    rw [log2_of_full full]
    rfl
  simp only [pack, bias, bits, if_true]
  split_ifs with large small small
  · omega
  · exact unpack_packedInfinity s
  · rw [unpack_packComponents s ⟨by omega, by omega⟩ full]
    congr 1
    omega
  · omega

/-! ## Doubles of integers -/

/-- The sign of an integer; zero is positive. -/
def signOf (i : ℤ) : Sign :=
  if i < 0 then .negative else .positive

/-- The sign and the absolute value make up the integer. -/
theorem signOf_apply_natAbs (i : ℤ) : (signOf i).apply i.natAbs = i := by
  unfold signOf
  split <;> simp only [Sign.apply] <;> omega

/-- An integer is rounded by its sign and its absolute value. -/
theorem normalize_eq_round {i : ℤ} (nonzero : i ≠ 0) (e : ℤ) (zeroSign : Sign) :
    UnpackedFloat.normalize .binary64 i e zeroSign =
      UnpackedFloat.round .binary64 (signOf i) i.natAbs e := by
  unfold UnpackedFloat.normalize signOf
  rcases nonzero.lt_or_gt with neg | pos
  · have abs : (-i).toNat = i.natAbs := by omega
    rw [Int.compare_eq_lt.mpr neg, if_pos neg]
    simp only [abs]
  · have abs : i.toNat = i.natAbs := by omega
    rw [Int.compare_eq_gt.mpr pos, if_neg pos.not_gt]
    simp only [abs]

/-- The double of a number is the number rounded. -/
theorem unpack_ofNat (pos : 0 < n) :
    (ofNat n).toModel.unpack =
      (Float.Model.pack (UnpackedFloat.round .binary64 .positive n 0)).unpack := by
  show (Float.Model.pack (UnpackedFloat.normalize .binary64 n 0 .positive)).unpack = _
  rw [normalize_eq_round (by omega), signOf, if_neg (Int.natCast_nonneg n).not_gt,
    Int.natAbs_natCast]

end Number

end CabScript
