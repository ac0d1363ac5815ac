import CabScript.Number.Shortest
import Mathlib

/-!
# Which double a decimal identifies

The rationals that round to a double form an interval around it. The ends belong to it if the
mantissa is even, so that of two doubles next to each other exactly one has the number halfway
between them, and no number has two doubles. A decimal is identified with a double by its value:
how the value is split into digits and a power of ten does not matter. So a decimal that lies in the
interval of a double, as the one that is written does, stands for this double and for no other.

## Main definitions

* `Decimal.value`, `Positive.interval`.
* `Positive.IsCanonical`: a double as binary64 holds it.

## Main statements

* `Positive.identifies_iff`: a decimal identifies the double in whose interval its value is.
* `Positive.shortest_mem_interval`: the decimal that is written does so.
* `Positive.eq_of_mem_interval`: intervals do not meet.
* `isCanonical_of_unpack`: all doubles are held as binary64 holds them.
-/

namespace CabScript

open Float.Model (UnpackedFloat)
open Float.Model.UnpackedFloat (Sign)

/-- The value of a decimal. -/
def Decimal.value (d : Decimal) : ℚ :=
  d.digits * 10 ^ d.exponent

namespace Positive

/-- The double is written as binary64 holds it: with 53 bits, or with fewer at the least
exponent. -/
structure IsCanonical (x : Positive) : Prop where
  short : x.mantissa < 2 ^ 53
  least : -1074 ≤ x.exponent
  full : 2 ^ 52 ≤ x.mantissa ∨ x.exponent = -1074

/-- A quarter of the last binary place. -/
def quarter (x : Positive) : ℚ :=
  2 ^ (x.exponent - 2)

/-- The reals that round to the double, among the rationals. -/
def interval (x : Positive) : Set ℚ :=
  if x.mantissa % 2 = 0 then Set.Icc (x.lowerQuarters * x.quarter) (x.upperQuarters * x.quarter)
  else Set.Ioo (x.lowerQuarters * x.quarter) (x.upperQuarters * x.quarter)

variable {x y : Positive}

theorem quarter_pos (x : Positive) : 0 < x.quarter :=
  zpow_pos two_pos _

/-- A power with any exponent is a fraction of powers of naturals. -/
theorem zpow_mul_pow_neg (base : ℕ) (pos : 0 < base) (e : ℤ) :
    (base : ℚ) ^ e * (base ^ (-e).toNat : ℕ) = (base ^ e.toNat : ℕ) := by
  have nonzero : (base : ℚ) ≠ 0 := by positivity
  rw [Nat.cast_pow, Nat.cast_pow, ← zpow_natCast, ← zpow_natCast, ← zpow_add₀ nonzero]
  congr 1
  omega

theorem commonUnit_eq (x : Positive) (e : ℤ) :
    x.commonUnit e =
      (10 ^ e.toNat * 2 ^ (-(x.exponent - 2)).toNat,
        10 ^ (-e).toNat * 2 ^ (x.exponent - 2).toNat) := by
  simp only [commonUnit, Nat.shiftLeft_eq, Nat.pow_eq]

theorem commonUnit_pos (x : Positive) (e : ℤ) : 0 < (x.commonUnit e).2 := by
  rw [commonUnit_eq]
  positivity

/-- The common unit makes both sides integral. -/
theorem mul_commonUnit (x : Positive) (e : ℤ) :
    (10 : ℚ) ^ e * (x.commonUnit e).2 = (x.commonUnit e).1 * x.quarter := by
  have tens : (10 : ℚ) ^ e * (10 ^ (-e).toNat : ℕ) = (10 ^ e.toNat : ℕ) :=
    zpow_mul_pow_neg 10 (by decide) e
  have twos : x.quarter * (2 ^ (-(x.exponent - 2)).toNat : ℕ) = (2 ^ (x.exponent - 2).toNat : ℕ) :=
    zpow_mul_pow_neg 2 (by decide) (x.exponent - 2)
  rw [commonUnit_eq, Nat.cast_mul, Nat.cast_mul, ← mul_assoc, tens, ← twos]
  ring

/-- **A decimal identifies the double** exactly if its value rounds to it. -/
theorem identifies_iff {d : Decimal} : x.identifies d = true ↔ d.value ∈ x.interval := by
  have unit : (0 : ℚ) < (x.commonUnit d.exponent).2 := by exact_mod_cast x.commonUnit_pos d.exponent
  have common : d.value * (x.commonUnit d.exponent).2 =
      (d.digits * (x.commonUnit d.exponent).1 : ℕ) * x.quarter := by
    rw [Decimal.value, mul_assoc, mul_commonUnit, Nat.cast_mul, mul_assoc]
  -- both sides are brought to the common unit
  have least (k : ℕ) : k * x.quarter ≤ d.value ↔
      k * (x.commonUnit d.exponent).2 ≤ d.digits * (x.commonUnit d.exponent).1 := by
    rw [← mul_le_mul_iff_left₀ unit, common, mul_right_comm, mul_le_mul_iff_left₀ x.quarter_pos]
    exact_mod_cast Iff.rfl
  have greatest (k : ℕ) : d.value ≤ k * x.quarter ↔
      d.digits * (x.commonUnit d.exponent).1 ≤ k * (x.commonUnit d.exponent).2 := by
    rw [← mul_le_mul_iff_left₀ unit, common, mul_right_comm, mul_le_mul_iff_left₀ x.quarter_pos]
    exact_mod_cast Iff.rfl
  unfold identifies within interval
  split
  · simp only [Set.mem_Icc, least, greatest, Bool.and_eq_true, decide_eq_true_eq]
  · simp only [Set.mem_Ioo, lt_iff_not_ge, least, greatest, Bool.and_eq_true, decide_eq_true_eq]

/-! ## The decimal that is written -/

/-- What is found on a grid has been tried. -/
theorem identifies_of_onGrid {e : ℤ} {d : Decimal} (found : x.onGrid? e = some d) :
    x.identifies d = true := by
  unfold onGrid? at found
  unfold identifies
  simp only at found
  split at found
  · cases found
  · cases found
    assumption
  · cases found
    assumption
  · split at found <;> cases found <;> assumption

theorem value_exactDecimal (x : Positive) :
    x.exactDecimal.value = (4 * x.mantissa : ℕ) * x.quarter := by
  have quarters : x.quarter * 4 = 2 ^ x.exponent := by
    rw [quarter, zpow_sub₀ two_ne_zero]
    norm_num
  rw [Nat.cast_mul, Nat.cast_ofNat, mul_comm 4, mul_assoc, mul_comm 4, quarters]
  rcases le_total 0 x.exponent with whole | fraction
  · obtain ⟨n, hn⟩ := Int.eq_ofNat_of_zero_le whole
    simp [Decimal.value, exactDecimal, hn, Nat.shiftLeft_eq]
  · obtain ⟨n, hn⟩ := Int.exists_eq_neg_ofNat fraction
    simp only [Decimal.value, exactDecimal, hn, Nat.shiftLeft_eq, Nat.pow_eq]
    have split : (10 : ℚ) ^ n = 2 ^ n * 5 ^ n := by
      rw [← mul_pow]
      norm_num
    simp [split]
    field_simp

/-- The value itself rounds to the double. -/
theorem quarters_mem_interval (x : Positive) : (4 * x.mantissa : ℕ) * x.quarter ∈ x.interval := by
  have low : x.lowerQuarters < 4 * x.mantissa := by
    have := x.mantissa_pos
    unfold lowerQuarters
    split <;> omega
  have high : 4 * x.mantissa < x.upperQuarters := by
    unfold upperQuarters
    omega
  have inside : ((4 * x.mantissa : ℕ) * x.quarter : ℚ) ∈
      Set.Ioo (x.lowerQuarters * x.quarter) (x.upperQuarters * x.quarter) := by
    constructor <;> gcongr
    · exact x.quarter_pos
    · exact x.quarter_pos
  unfold interval
  split
  · exact Set.Ioo_subset_Icc_self inside
  · exact inside

theorem value_stripZeros (limit : ℕ) (d : Decimal) : (stripZeros limit d).value = d.value := by
  induction limit generalizing d with
  | zero => rfl
  | succ limit ih =>
    rw [stripZeros]
    split
    · rename_i zero
      have digits : (d.digits : ℚ) = (d.digits / 10 : ℕ) * 10 := by
        exact_mod_cast (Nat.div_mul_cancel (Nat.dvd_of_mod_eq_zero zero)).symm
      rw [ih, Decimal.value, Decimal.value, digits, zpow_add₀ (by norm_num)]
      ring
    · rfl

/-- **The decimal that is written rounds to the double.** -/
theorem shortest_mem_interval (x : Positive) : x.shortest.value ∈ x.interval := by
  rw [shortest, value_stripZeros]
  cases found : (List.range 17).findSome? fun (n : ℕ) => x.onGrid? (x.magnitude - (n + 1)) with
  | none =>
    rw [Option.getD_none, value_exactDecimal]
    exact x.quarters_mem_interval
  | some d =>
    obtain ⟨n, -, onGrid⟩ := List.exists_of_findSome?_eq_some found
    exact identifies_iff.mp (identifies_of_onGrid onGrid)

/-! ## Intervals do not meet -/

/-- The double comes before another one. -/
def Precedes (x y : Positive) : Prop :=
  x.exponent < y.exponent ∨ x.exponent = y.exponent ∧ x.mantissa < y.mantissa

/-- At one exponent the interval of the smaller mantissa ends first. Where the other interval starts
at its end, the mantissas are next to each other. -/
theorem upperQuarters_of_mantissa_lt (less : x.mantissa < y.mantissa) :
    x.upperQuarters < y.lowerQuarters ∨
      x.upperQuarters = y.lowerQuarters ∧ (x.mantissa % 2 = 1 ∨ y.mantissa % 2 = 1) := by
  unfold upperQuarters lowerQuarters
  split <;> omega

/-- At a smaller exponent the interval ends first as well: the mantissa at the greater one has all
its bits. Where the other interval starts at its end, the first mantissa is the greatest one. -/
theorem upperQuarters_of_exponent_lt (hx : x.IsCanonical) (hy : y.IsCanonical)
    (less : x.exponent < y.exponent) {factor : ℕ} (two_le : 2 ≤ factor) :
    x.upperQuarters < y.lowerQuarters * factor ∨
      x.upperQuarters = y.lowerQuarters * factor ∧ (x.mantissa % 2 = 1 ∨ y.mantissa % 2 = 1) := by
  have short := hx.short
  have full : 2 ^ 52 ≤ y.mantissa := hy.full.resolve_right (by have := hx.least; omega)
  have lower : 2 ^ 54 - 1 ≤ y.lowerQuarters := by
    unfold lowerQuarters
    split
    · omega
    · rename_i wide
      have notLeast : y.mantissa ≠ 2 ^ 52 := by
        intro power
        have := hx.least
        simp [narrowBelow, power] at wide
        omega
      omega
  have scaled : (2 ^ 54 - 1) * 2 ≤ y.lowerQuarters * factor := Nat.mul_le_mul lower two_le
  unfold upperQuarters at *
  omega

/-- The interval of the double that comes first ends before the other one starts, or where it
starts, and then one of the two intervals is without this end. -/
theorem Precedes.upper_lower (hx : x.IsCanonical) (hy : y.IsCanonical) (less : x.Precedes y) :
    x.upperQuarters * x.quarter < y.lowerQuarters * y.quarter ∨
      x.upperQuarters * x.quarter = y.lowerQuarters * y.quarter ∧
        (x.mantissa % 2 = 1 ∨ y.mantissa % 2 = 1) := by
  have le : x.exponent ≤ y.exponent := by
    unfold Precedes at less
    omega
  obtain ⟨gap, hgap⟩ := Int.le.dest le
  have quarters : y.quarter = (2 ^ gap : ℕ) * x.quarter := by
    rw [quarter, ← hgap, quarter, add_sub_right_comm, zpow_add₀ two_ne_zero, zpow_natCast, mul_comm]
    norm_cast
  have counted : x.upperQuarters < y.lowerQuarters * 2 ^ gap ∨
      x.upperQuarters = y.lowerQuarters * 2 ^ gap ∧
        (x.mantissa % 2 = 1 ∨ y.mantissa % 2 = 1) := by
    rcases less with less | ⟨same, less⟩
    · refine upperQuarters_of_exponent_lt hx hy less ?_
      exact Nat.le_self_pow (by omega) 2
    · obtain rfl : gap = 0 := by omega
      simpa using upperQuarters_of_mantissa_lt less
  rw [quarters, ← mul_assoc, mul_lt_mul_iff_left₀ x.quarter_pos,
    mul_left_inj' x.quarter_pos.ne']
  exact_mod_cast counted

/-- The ends bound the interval, -/
theorem le_of_mem_interval {p : ℚ} (mem : p ∈ x.interval) :
    x.lowerQuarters * x.quarter ≤ p ∧ p ≤ x.upperQuarters * x.quarter := by
  unfold interval at mem
  split at mem
  · exact mem
  · exact ⟨mem.1.le, mem.2.le⟩

/-- and do not belong to it if the mantissa is odd. -/
theorem lt_of_mem_interval {p : ℚ} (mem : p ∈ x.interval) (odd : x.mantissa % 2 = 1) :
    x.lowerQuarters * x.quarter < p ∧ p < x.upperQuarters * x.quarter := by
  rw [interval, if_neg (by omega)] at mem
  exact mem

theorem Precedes.notMem_interval (hx : x.IsCanonical) (hy : y.IsCanonical) (less : x.Precedes y)
    {p : ℚ} (toX : p ∈ x.interval) : p ∉ y.interval := by
  intro toY
  have up := (le_of_mem_interval toX).2
  have down := (le_of_mem_interval toY).1
  rcases less.upper_lower hx hy with apart | ⟨touch, odd | odd⟩
  · exact absurd (up.trans_lt apart) down.not_gt
  · exact absurd ((lt_of_mem_interval toX odd).2.trans_eq touch) down.not_gt
  · exact absurd (up.trans_eq touch) (lt_of_mem_interval toY odd).1.not_ge

/-- **No number rounds to two doubles.** -/
theorem eq_of_mem_interval (hx : x.IsCanonical) (hy : y.IsCanonical) {p : ℚ}
    (toX : p ∈ x.interval) (toY : p ∈ y.interval) : x = y := by
  have notLess : ¬ x.Precedes y := fun less => less.notMem_interval hx hy toX toY
  have notGreater : ¬ y.Precedes x := fun less => less.notMem_interval hy hx toY toX
  obtain ⟨m, e, pos⟩ := x
  obtain ⟨m', e', pos'⟩ := y
  simp only [Precedes] at notLess notGreater
  obtain rfl : e = e' := by omega
  obtain rfl : m = m' := by omega
  rfl

theorem value_pos_of_mem_interval {p : ℚ} (mem : p ∈ x.interval) : 0 < p := by
  have := x.mantissa_pos
  have lower : 0 < x.lowerQuarters := by
    unfold lowerQuarters
    split <;> omega
  have : (0 : ℚ) < x.lowerQuarters * x.quarter := mul_pos (by exact_mod_cast lower) x.quarter_pos
  exact this.trans_le (le_of_mem_interval mem).1

end Positive

/-! ## Doubles as they are held -/

/-- A binary64 number is unpacked to what it holds. -/
theorem isCanonical_of_unpack {x : Float} {s : Sign} {m : ℕ} {e : ℤ} {pos : 0 < m}
    (h : x.toModel.unpack = .finite s m e pos) : Positive.IsCanonical ⟨m, e, pos⟩ := by
  unfold Float.Model.unpack UnpackedFloat.unpack at h
  have bias : (Float.Model.Format.exponentBias .binary64 : ℤ) +
      Float.Model.Format.mantissaBitsWithoutImplicit .binary64 = 1075 := by decide
  have bits := (@UnpackedFloat.unpackMantissa .binary64 x.toModel.toBits.toBitVec).isLt
  simp only [bias] at h
  split at h
  · split at h <;> cases h
  split at h
  · rename_i zero
    split at h
    · cases h
    · obtain ⟨-, rfl, rfl⟩ := UnpackedFloat.finite.inj h
      constructor
      · exact bits.trans (by decide)
      · simp [zero]
      · simp [zero]
  · rename_i nonzero
    have positive : (@UnpackedFloat.unpackExponent .binary64 x.toModel.toBits.toBitVec).toNat ≠ 0 :=
      fun zero => nonzero (BitVec.eq_of_toNat_eq zero)
    obtain ⟨-, rfl, rfl⟩ := UnpackedFloat.finite.inj h
    have leading :
        (1#1 ++ @UnpackedFloat.unpackMantissa .binary64 x.toModel.toBits.toBitVec).toNat =
          2 ^ 52 + (@UnpackedFloat.unpackMantissa .binary64 x.toModel.toBits.toBitVec).toNat := by
      rw [BitVec.toNat_append, ← Nat.shiftLeft_add_eq_or_of_lt bits]
      rfl
    constructor
    · simp only [leading]
      exact Nat.add_lt_add_left bits _
    · simp only
      omega
    · left
      simp only [leading]
      omega

end CabScript
