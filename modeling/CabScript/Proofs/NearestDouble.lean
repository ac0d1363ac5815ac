import CabScript.Proofs.Rounding
import CabScript.Proofs.Truncation

/-!
# The double nearest to a number

A number is rounded by its size and keeps its sign. Rounding is monotone, moves a number of normal
size by at most the 53rd place, and leaves alone what has at most 53 binary places. The double is
finite exactly for the numbers below the bound of the infinities.

## Main definitions

* `Number.Nearest`: the double is what a number is rounded to.
* `Number.NearSize`, `Number.NearValue`: what the size of a number, and the number, are rounded to,
  if the double is finite.
* `Number.IsShort`: a number with at most 53 binary places.

## Main statements

* `Number.Nearest.isFinite_iff`: which numbers have a finite double.
* `Number.NearValue.mono`: rounding keeps the order.
* `Number.NearValue.abs_sub_le`: how far rounding moves a number.
* `Number.NearValue.eq_of_isShort`: what is not moved.
-/

namespace CabScript

open Float.Model (Format UnpackedFloat)
open Float.Model.UnpackedFloat

/-! ## The ends of intervals -/

namespace Positive

variable {p q : Positive} {v w : ℚ}

/-- Of two different doubles one comes before the other. -/
theorem precedes_trichotomy (p q : Positive) : p.Precedes q ∨ p = q ∨ q.Precedes p := by
  obtain ⟨m, e, pos⟩ := p
  obtain ⟨m', e', pos'⟩ := q
  simp only [Precedes, mk.injEq]
  omega

/-- **Rounding keeps the order** of numbers above zero. -/
theorem value_le_of_mem_interval (hp : p.IsCanonical) (hq : q.IsCanonical) (le : v ≤ w)
    (toP : v ∈ p.interval) (toQ : w ∈ q.interval) : p.value ≤ q.value := by
  rcases precedes_trichotomy p q with less | rfl | greater
  · exact (less.value_lt hp hq).le
  · exact le_rfl
  · -- the interval of the double in front ends before the other one begins
    have apart := greater.upper_lower hq hp
    have ends := (le_of_mem_interval toQ).2
    have begins := (le_of_mem_interval toP).1
    have same : w = v := by
      refine le_antisymm ?_ le
      rcases apart with apart | ⟨touch, -⟩
      · exact (ends.trans_lt apart).le.trans begins
      · exact (ends.trans_eq touch).trans begins
    subst same
    rw [eq_of_mem_interval hp hq toP toQ]

/-- The interval of a finite double ends before the infinities begin. -/
theorem lt_overflow_of_mem_interval (hp : p.IsCanonical) (fits : p.exponent ≤ 971)
    (mem : v ∈ p.interval) : v < Number.overflow := by
  have short := hp.short
  have quarter : p.quarter ≤ 2 ^ 969 := by
    rw [quarter, ← zpow_natCast]
    exact zpow_le_zpow_right₀ one_le_two (by omega)
  have upper : p.upperQuarters ≤ 2 ^ 55 - 2 := by
    unfold upperQuarters
    omega
  have greatest : ((2 ^ 55 - 2 : ℕ) : ℚ) * 2 ^ 969 = Number.overflow := by
    have factor : ((2 ^ 55 - 2 : ℕ) : ℚ) = (2 ^ 54 - 1) * 2 := by norm_num
    rw [Number.overflow, factor, mul_assoc, ← pow_succ']
  rcases Nat.even_or_odd p.mantissa with even | odd
  · -- the greatest mantissa is odd
    have less : p.upperQuarters < 2 ^ 55 - 2 := by
      rw [Nat.even_iff] at even
      unfold upperQuarters
      omega
    calc v ≤ p.upperQuarters * p.quarter := (le_of_mem_interval mem).2
      _ < ((2 ^ 55 - 2 : ℕ) : ℚ) * p.quarter :=
          mul_lt_mul_of_pos_right (by exact_mod_cast less) p.quarter_pos
      _ ≤ ((2 ^ 55 - 2 : ℕ) : ℚ) * 2 ^ 969 := mul_le_mul_of_nonneg_left quarter (by positivity)
      _ = Number.overflow := greatest
  · calc v < p.upperQuarters * p.quarter := (lt_of_mem_interval mem (Nat.odd_iff.mp odd)).2
      _ ≤ ((2 ^ 55 - 2 : ℕ) : ℚ) * 2 ^ 969 :=
          mul_le_mul (by exact_mod_cast upper) quarter p.quarter_pos.le (by positivity)
      _ = Number.overflow := greatest

/-- The interval of a double above zero begins where the zeros end. -/
theorem underflow_lt_of_mem_interval (hp : p.IsCanonical) (mem : v ∈ p.interval) :
    Number.underflow < v := by
  have pos := p.mantissa_pos
  have quarter : (2 : ℚ) ^ (-1076 : ℤ) ≤ p.quarter :=
    zpow_le_zpow_right₀ one_le_two (by have := hp.least; omega)
  have half : Number.underflow = (2 : ℕ) * 2 ^ (-1076 : ℤ) := by
    rw [Number.underflow, show (-1075 : ℤ) = -1076 + 1 by norm_num, zpow_add_one₀ two_ne_zero,
      mul_comm]
    rfl
  have lower : 2 ≤ p.lowerQuarters := by
    unfold lowerQuarters
    split <;> omega
  have bound : Number.underflow ≤ p.lowerQuarters * p.quarter := by
    rw [half]
    exact mul_le_mul (by exact_mod_cast lower) quarter (by positivity) (by positivity)
  rcases Nat.even_or_odd p.mantissa with even | odd
  · have less : 2 < p.lowerQuarters := by
      rw [Nat.even_iff] at even
      unfold lowerQuarters
      split <;> omega
    calc Number.underflow = (2 : ℕ) * 2 ^ (-1076 : ℤ) := half
      _ ≤ (2 : ℕ) * p.quarter := mul_le_mul_of_nonneg_left quarter (by positivity)
      _ < p.lowerQuarters * p.quarter :=
          mul_lt_mul_of_pos_right (by exact_mod_cast less) p.quarter_pos
      _ ≤ v := (le_of_mem_interval mem).1
  · exact bound.trans_lt (lt_of_mem_interval mem (Nat.odd_iff.mp odd)).1

/-- Rounding moves a number by at most the 53rd place, or by half the least place. -/
theorem abs_sub_value_le (hp : p.IsCanonical) (mem : v ∈ p.interval) :
    |v - p.value| ≤ Max.max (p.value * 2 ^ (-53 : ℤ)) Number.underflow := by
  have pos := p.mantissa_pos
  -- the ends are at most two quarters of a place away
  have ends : |v - p.value| ≤ 2 * p.quarter := by
    obtain ⟨low, high⟩ := le_of_mem_interval mem
    have lower : 4 * p.mantissa ≤ p.lowerQuarters + 2 := by
      unfold lowerQuarters
      split <;> omega
    have lower : (4 * p.mantissa : ℚ) ≤ p.lowerQuarters + 2 := by exact_mod_cast lower
    have upper : (p.upperQuarters : ℚ) = 4 * p.mantissa + 2 := by
      unfold upperQuarters
      push_cast
      rfl
    have scaled := mul_le_mul_of_nonneg_right lower p.quarter_pos.le
    rw [upper] at high
    rw [value_eq_quarters, abs_le]
    push_cast
    constructor <;> linarith
  refine ends.trans (le_max_iff.mpr ?_)
  rcases hp.full with full | least
  · left
    have full : (2 : ℚ) ^ 52 ≤ p.mantissa := by exact_mod_cast full
    have places : 2 * p.quarter = 2 ^ 52 * 2 ^ p.exponent * 2 ^ (-53 : ℤ) := by
      rw [← p.quarter_mul_four]
      norm_num
      ring
    rw [places]
    exact mul_le_mul_of_nonneg_right (mul_le_mul_of_nonneg_right full (zpow_pos two_pos _).le)
      (by positivity)
  · right
    have places : 2 * p.quarter = Number.underflow := by
      rw [quarter, least, Number.underflow, mul_comm, ← zpow_add_one₀ two_ne_zero]
      norm_num
    exact places.le

end Positive

namespace Number

variable {x y : Float} {v v' w u u' : ℚ}

theorem four_le_overflow : 4 ≤ overflow := by
  rw [overflow]
  calc (4 : ℚ) ≤ (2 ^ 54 - 1) * 1 := by norm_num
    _ ≤ (2 ^ 54 - 1) * 2 ^ 970 :=
        mul_le_mul_of_nonneg_left (one_le_pow₀ one_le_two) (by norm_num)

/-! ## Sizes -/

/-- What the size of a number is rounded to, if the double is finite. -/
inductive NearSize (v : ℚ) : ℚ → Prop
  | zero (small : v ≤ underflow) : NearSize v 0
  | finite (p : Positive) (canonical : p.IsCanonical) (mem : v ∈ p.interval) : NearSize v p.value

namespace NearSize

theorem nonneg (h : NearSize v u) : 0 ≤ u := by
  cases h with
  | zero => exact le_rfl
  | finite p => exact p.value_pos.le

/-- Rounding keeps the order of sizes. -/
theorem mono (h : NearSize v u) (h' : NearSize v' u') (le : v ≤ v') : u ≤ u' := by
  cases h with
  | zero => exact h'.nonneg
  | finite p canonical mem =>
    cases h' with
    | zero small =>
      exact absurd (le.trans small) (Positive.underflow_lt_of_mem_interval canonical mem).not_ge
    | finite q canonical' mem' =>
      exact Positive.value_le_of_mem_interval canonical canonical' le mem mem'

theorem abs_sub_le (h : NearSize v u) (nonneg : 0 ≤ v) :
    |v - u| ≤ Max.max (u * 2 ^ (-53 : ℤ)) underflow := by
  cases h with
  | zero small =>
    rw [sub_zero, abs_of_nonneg nonneg]
    exact small.trans (le_max_right ..)
  | finite p canonical mem => exact Positive.abs_sub_value_le canonical mem

end NearSize

/-! ## Numbers with their signs -/

/-- A number of a size, with a sign. -/
def withSign : Sign → ℚ → ℚ
  | .negative, v => -v
  | .positive, v => v

/-- The double is what a number is rounded to: its size is rounded, and its sign is kept. -/
def Nearest (v : ℚ) (x : Float) : Prop :=
  ∃ s, withSign s |v| = v ∧ Rounded s |v| x.toModel.unpack

theorem value?_of_zero {s : Sign} (held : x.toModel.unpack = .zero s) : value? x = some 0 := by
  simp [value?, Exact.ofFloat?, held, Exact.value]

theorem value?_zero : value? 0.0 = some 0 :=
  value?_of_zero (s := .positive) rfl

theorem value?_of_finite {s : Sign} {p : Positive}
    (held : x.toModel.unpack = .finite s p.mantissa p.exponent p.mantissa_pos) :
    value? x = some (withSign s p.value) := by
  simp only [value?, Exact.ofFloat?, held, Option.map_some, Exact.value]
  cases s <;> simp [withSign, Sign.apply, Positive.value]

theorem value?_one : value? 1.0 = some 1 :=
  (value?_of_finite (s := .positive) (p := ⟨2 ^ 52, -52, by decide⟩) rfl).trans
    (by norm_num [withSign, Positive.value])

theorem value?_of_infinity {s : Sign} (held : x.toModel.unpack = .infinity s) :
    value? x = none := by
  simp [value?, Exact.ofFloat?, held]

/-- A double holds a number: a zero, or a size as binary64 writes it with a sign. -/
inductive Holds : UnpackedFloat → ℚ → Prop
  | zero (s : Sign) : Holds (.zero s) 0
  | finite (s : Sign) (p : Positive) (canonical : p.IsCanonical) :
    Holds (.finite s p.mantissa p.exponent p.mantissa_pos) (withSign s p.value)

/-- A finite double holds its value. -/
theorem holds_of_value? (hx : value? x = some v) : Holds x.toModel.unpack v := by
  rcases value?_cases hx with ⟨⟨s, held⟩, rfl⟩ | ⟨p, hp, ⟨held, rfl⟩ | ⟨held, rfl⟩⟩
  · exact held ▸ .zero s
  · exact held ▸ .finite .positive p hp
  · exact held ▸ .finite .negative p hp

theorem abs_withSign {s : Sign} (nonneg : 0 ≤ v) : |withSign s v| = v := by
  cases s
  · exact (abs_neg v).trans (abs_of_nonneg nonneg)
  · exact abs_of_nonneg nonneg

/-- A size is rounded to itself. -/
theorem nearSize_value {p : Positive} (hp : p.IsCanonical) : NearSize p.value p.value :=
  .finite p hp (p.value_eq_quarters ▸ p.quarters_mem_interval)

/-- What a number is rounded to, if the double is finite: its size is rounded, and its sign is
kept. -/
structure NearValue (v u : ℚ) : Prop where
  size : NearSize |v| |u|
  nonneg : 0 ≤ v → 0 ≤ u
  nonpos : v ≤ 0 → u ≤ 0

namespace NearValue

/-- **Rounding keeps the order.** -/
theorem mono (h : NearValue v u) (h' : NearValue v' u') (le : v ≤ v') : u ≤ u' := by
  rcases le_total 0 v with above | below
  · have larger := h.size.mono h'.size (abs_le_abs_of_nonneg above le)
    rwa [abs_of_nonneg (h.nonneg above), abs_of_nonneg (h'.nonneg (above.trans le))] at larger
  · rcases le_total 0 v' with above' | below'
    · exact (h.nonpos below).trans (h'.nonneg above')
    · have smaller := h'.size.mono h.size (abs_le_abs_of_nonpos below' le)
      rw [abs_of_nonpos (h.nonpos below), abs_of_nonpos (h'.nonpos below')] at smaller
      exact neg_le_neg_iff.mp smaller

/-- A number is rounded to one number. -/
theorem unique (h : NearValue v u) (h' : NearValue v u') : u = u' :=
  le_antisymm (h.mono h' le_rfl) (h'.mono h le_rfl)

/-- Rounding moves a number by at most the 53rd place, or by half the least place. -/
theorem abs_sub_le (h : NearValue v u) : |v - u| ≤ Max.max (|u| * 2 ^ (-53 : ℤ)) underflow := by
  have moved := h.size.abs_sub_le (abs_nonneg v)
  rcases le_total 0 v with above | below
  · rw [abs_of_nonneg above] at moved
    rwa [abs_of_nonneg (h.nonneg above)] at moved ⊢
  · rw [abs_of_nonpos below, abs_of_nonpos (h.nonpos below), neg_sub_neg] at moved
    rwa [abs_sub_comm, abs_of_nonpos (h.nonpos below)]

end NearValue

namespace Nearest

/-- The value of a double that is nearest to a number. -/
theorem nearValue (h : Nearest v x) (hx : value? x = some u) : NearValue v u := by
  obtain ⟨s, signed, rounded⟩ := h
  generalize held : x.toModel.unpack = unpacked at rounded
  cases rounded with
  | zero small =>
    obtain rfl : 0 = u := Option.some.inj ((value?_of_zero held).symm.trans hx)
    exact ⟨abs_zero (α := ℚ) ▸ .zero small, fun _ => le_rfl, fun _ => le_rfl⟩
  | finite p canonical fits mem =>
    obtain rfl : withSign s p.value = u := Option.some.inj ((value?_of_finite held).symm.trans hx)
    have positive := Positive.value_pos_of_mem_interval mem
    refine ⟨?_, fun nonneg => ?_, fun nonpos => ?_⟩
    · rw [abs_withSign p.value_pos.le]
      exact .finite p canonical mem
    · cases s with
      | negative =>
        have : -|v| = v := signed
        linarith
      | positive => exact p.value_pos.le
    · cases s with
      | negative => exact neg_nonpos.mpr p.value_pos.le
      | positive =>
        have : |v| = v := signed
        linarith
  | infinity => cases (value?_of_infinity held).symm.trans hx

/-- **A number has a finite double** if it is below the bound of the infinities. -/
theorem isFinite_iff (h : Nearest v x) : x.isFinite = true ↔ |v| < overflow := by
  obtain ⟨s, -, rounded⟩ := h
  show x.toModel.unpack.isFinite = true ↔ _
  generalize x.toModel.unpack = unpacked at rounded ⊢
  cases rounded with
  | zero small =>
    have : underflow < 1 := zpow_lt_one_of_neg₀ one_lt_two (by norm_num)
    have := four_le_overflow
    exact ⟨fun _ => by linarith, fun _ => rfl⟩
  | finite p canonical fits mem =>
    exact ⟨fun _ => Positive.lt_overflow_of_mem_interval canonical fits mem, fun _ => rfl⟩
  | infinity large => exact iff_of_false Bool.false_ne_true large.not_gt

theorem isNaN (h : Nearest v x) : x.isNaN = false := by
  obtain ⟨s, -, rounded⟩ := h
  show x.toModel.unpack.isNaN = false
  generalize x.toModel.unpack = unpacked at rounded ⊢
  cases rounded <;> rfl

end Nearest

/-! ## Doubles are nearest to their values -/

/-- The greatest exponent of a finite double. -/
theorem exponent_le_of_unpack {s : Sign} {m : ℕ} {e : ℤ} {pos : 0 < m}
    (held : x.toModel.unpack = .finite s m e pos) : e ≤ 971 := by
  unfold Float.Model.unpack UnpackedFloat.unpack at held
  have bias : (Format.exponentBias .binary64 : ℤ) +
      Format.mantissaBitsWithoutImplicit .binary64 = 1075 := by decide
  simp only [bias] at held
  have bits := (@unpackExponent .binary64 x.toModel.toBits.toBitVec).isLt
  split at held
  · split at held <;> cases held
  · rename_i notLast
    have less : (@unpackExponent .binary64 x.toModel.toBits.toBitVec).toNat ≠ 2047 := fun last =>
      notLast (BitVec.eq_of_toNat_eq last)
    split at held
    · rename_i zero
      split at held
      · cases held
      · obtain ⟨-, -, rfl⟩ := UnpackedFloat.finite.inj held
        simp [zero]
    · obtain ⟨-, -, rfl⟩ := UnpackedFloat.finite.inj held
      change _ < 2048 at bits
      omega

/-- A number is rounded as its size is, with its sign. -/
theorem nearest_withSign {s : Sign} (nonneg : 0 ≤ v) (rounded : Rounded s v x.toModel.unpack) :
    Nearest (withSign s v) x :=
  ⟨s, by rw [abs_withSign nonneg], by rwa [abs_withSign nonneg]⟩

/-- **A finite double is nearest to its value.** -/
theorem nearest_self (hx : value? x = some v) : Nearest v x := by
  have holds := holds_of_value? hx
  generalize held : x.toModel.unpack = unpacked at holds
  cases holds with
  | zero s =>
    have rounded : Rounded s 0 x.toModel.unpack := held ▸ .zero (zpow_pos two_pos _).le
    have nearest := nearest_withSign le_rfl rounded
    cases s
    · exact (neg_zero (G := ℚ)) ▸ nearest
    · exact nearest
  | finite s p canonical =>
    have mem : p.value ∈ p.interval := p.value_eq_quarters ▸ p.quarters_mem_interval
    exact nearest_withSign p.value_pos.le
      (held ▸ .finite p canonical (exponent_le_of_unpack held) mem)

theorem abs_lt_overflow (hx : value? x = some v) : |v| < overflow :=
  (nearest_self hx).isFinite_iff.mp (isFinite_of_value? hx)

/-- A number below the bound of the infinities has a finite double. -/
theorem Nearest.exists_value? (h : Nearest v x) (less : |v| < overflow) : ∃ u, value? x = some u :=
  Option.isSome_iff_exists.mp (isSome_value?_iff.mpr (h.isFinite_iff.mpr less))

/-- A number has a finite double or an infinite one. -/
theorem Nearest.value?_or_infinity (h : Nearest v x) :
    (∃ u, value? x = some u) ∨ ∃ s, x.toModel.unpack = .infinity s := by
  rcases isNaN_or_value?_or_infinity x with nan | known
  · cases nan.symm.trans h.isNaN
  · exact known

end Number

/-! ## Short numbers -/

/-- A mantissa of at most 53 bits can be written as binary64 writes it. -/
theorem Positive.exists_isCanonical {n : ℕ} {f : ℤ} (pos : 0 < n) (short : n ≤ 2 ^ 53)
    (least : -1074 ≤ f) : ∃ p : Positive, p.IsCanonical ∧ p.value = n * 2 ^ f := by
  rcases short.eq_or_lt with rfl | short
  · refine ⟨⟨2 ^ 52, f + 1, Nat.two_pow_pos 52⟩, isCanonical_power (by omega), ?_⟩
    rw [value, zpow_add_one₀ two_ne_zero]
    norm_num
    ring
  · -- it is filled up with zeros as far as the exponent allows
    have bits : n.log2 < 53 := (Nat.log2_lt pos.ne').mpr short
    obtain ⟨k, hk, le, full⟩ : ∃ k : ℕ, k ≤ 52 - n.log2 ∧ -1074 ≤ f - k ∧
        (k = 52 - n.log2 ∨ f - k = -1074) :=
      ⟨Min.min (52 - n.log2) (f + 1074).toNat, by omega, by omega, by omega⟩
    refine ⟨⟨n * 2 ^ k, f - k, Nat.mul_pos pos (Nat.two_pow_pos k)⟩, ⟨?_, le, ?_⟩, ?_⟩
    · exact (Nat.mul_le_mul_left n (Nat.pow_le_pow_right two_pos hk)).trans_lt
        (Number.filled_mem_fullMantissas pos short).2
    · refine full.imp_left fun same => ?_
      simp only [same]
      exact (Number.filled_mem_fullMantissas pos short).1
    · rw [value, zpow_sub₀ two_ne_zero, zpow_natCast]
      push_cast
      field_simp

namespace Number

variable {x : Float} {v p u : ℚ}

/-- The number has at most 53 binary places, and none behind the least place of a double. -/
def IsShort (v : ℚ) : Prop :=
  ∃ n f : ℤ, v = n * 2 ^ f ∧ n.natAbs ≤ 2 ^ 53 ∧ -1074 ≤ f

/-- What a double holds is short. -/
theorem Holds.isShort {unpacked : UnpackedFloat} (h : Holds unpacked v) : IsShort v := by
  cases h with
  | zero => exact ⟨0, 0, by simp, by simp, by norm_num⟩
  | finite s p canonical =>
    have short := canonical.short.le
    cases s
    · exact ⟨-p.mantissa, p.exponent, by simp [withSign, Positive.value], by simpa, canonical.least⟩
    · exact ⟨p.mantissa, p.exponent, rfl, by simpa, canonical.least⟩

theorem isShort_of_value? (hx : value? x = some v) : IsShort v :=
  (holds_of_value? hx).isShort

/-- The size of a short number is rounded to itself. -/
theorem IsShort.nearSize (short : IsShort v) : NearSize |v| |v| := by
  obtain ⟨n, f, rfl, short, least⟩ := short
  have unit : (0 : ℚ) < 2 ^ f := zpow_pos two_pos f
  have size : |(n : ℚ) * 2 ^ f| = (n.natAbs : ℚ) * 2 ^ f := by
    rw [abs_mul, abs_of_pos unit, Nat.cast_natAbs, Int.cast_abs]
  rw [size]
  rcases Nat.eq_zero_or_pos n.natAbs with zero | pos
  · rw [zero, Nat.cast_zero, zero_mul]
    exact .zero (zpow_pos two_pos _).le
  · obtain ⟨p, canonical, value⟩ := Positive.exists_isCanonical pos short least
    rw [← value]
    exact nearSize_value canonical

/-- **A short number is rounded to itself.** -/
theorem IsShort.nearValue (short : IsShort v) : NearValue v v :=
  ⟨short.nearSize, id, id⟩

theorem NearValue.eq_of_isShort (h : NearValue v u) (short : IsShort v) : u = v :=
  h.unique short.nearValue

theorem isShort_intCast {n : ℤ} (short : n.natAbs ≤ 2 ^ 53) : IsShort (n : ℚ) :=
  ⟨n, 0, by rw [zpow_zero, mul_one], short, by decide⟩

/-- A greater unit is a whole number of lesser ones. -/
theorem unit_eq {e f : ℤ} (le : e ≤ f) : (2 : ℚ) ^ f = 2 ^ (f - e).toNat * 2 ^ e := by
  rw [← zpow_natCast, ← zpow_add₀ two_ne_zero]
  congr 1
  omega

theorem exists_units_eq (n : ℤ) {e f : ℤ} (le : e ≤ f) :
    ∃ m : ℤ, (n : ℚ) * 2 ^ f = m * 2 ^ e := by
  refine ⟨n * 2 ^ (f - e).toNat, ?_⟩
  rw [unit_eq le]
  push_cast
  ring

theorem natAbs_le_of_abs_le {n m e : ℤ} (le : |(n : ℚ) * 2 ^ e| ≤ |(m : ℚ) * 2 ^ e|) :
    n.natAbs ≤ m.natAbs := by
  have unit : (0 : ℚ) < 2 ^ e := zpow_pos two_pos e
  rw [abs_mul, abs_mul, abs_of_pos unit, mul_le_mul_iff_left₀ unit] at le
  have le : |n| ≤ |m| := by exact_mod_cast le
  rwa [Int.abs_eq_natAbs, Int.abs_eq_natAbs, Nat.cast_le] at le

namespace IsShort

theorem neg (h : IsShort v) : IsShort (-v) := by
  obtain ⟨n, e, rfl, short, least⟩ := h
  exact ⟨-n, e, by push_cast; ring, by omega, least⟩

theorem double (h : IsShort v) : IsShort (v * 2) := by
  obtain ⟨n, e, rfl, short, least⟩ := h
  exact ⟨n, e + 1, by rw [zpow_add_one₀ two_ne_zero]; ring, short, by omega⟩

/-- **A difference that is not greater than what it is made of is short.** -/
theorem sub (hv : IsShort v) (hp : IsShort p) (le : |v - p| ≤ |v|) (le' : |v - p| ≤ |p|) :
    IsShort (v - p) := by
  obtain ⟨n, e, rfl, short, least⟩ := hv
  obtain ⟨m, f, rfl, short', least'⟩ := hp
  rcases le_total e f with lesser | greater
  · obtain ⟨k, hk⟩ := exists_units_eq m lesser
    rw [hk, ← sub_mul, ← Int.cast_sub] at le ⊢
    exact ⟨n - k, e, rfl, (natAbs_le_of_abs_le le).trans short, least⟩
  · obtain ⟨k, hk⟩ := exists_units_eq n greater
    rw [hk, ← sub_mul, ← Int.cast_sub] at le' ⊢
    exact ⟨k - m, f, rfl, (natAbs_le_of_abs_le le').trans short', least'⟩

end IsShort

/-- The number is a whole number of the least units of a double. -/
def OnGrid (v : ℚ) : Prop :=
  ∃ n : ℤ, v = n * 2 ^ (-1074 : ℤ)

theorem IsShort.onGrid (h : IsShort v) : OnGrid v := by
  obtain ⟨n, e, rfl, -, least⟩ := h
  exact exists_units_eq n least

theorem OnGrid.neg (h : OnGrid v) : OnGrid (-v) := by
  obtain ⟨n, rfl⟩ := h
  exact ⟨-n, by rw [Int.cast_neg, neg_mul]⟩

theorem OnGrid.sub (hv : OnGrid v) (hp : OnGrid p) : OnGrid (v - p) := by
  obtain ⟨n, rfl⟩ := hv
  obtain ⟨m, rfl⟩ := hp
  exact ⟨n - m, by rw [Int.cast_sub, sub_mul]⟩

namespace NearValue

theorem neg (h : NearValue v u) : NearValue (-v) (-u) where
  size := by
    rw [abs_neg, abs_neg]
    exact h.size
  nonneg above := neg_nonneg.mpr (h.nonpos (neg_nonneg.mp above))
  nonpos below := neg_nonpos.mpr (h.nonneg (neg_nonpos.mp below))

/-- Whole numbers of the least units are not rounded to zero. -/
theorem neg_of_onGrid (h : NearValue v u) (grid : OnGrid v) (negative : v < 0) : u < 0 := by
  obtain ⟨n, rfl⟩ := grid
  have unit : (0 : ℚ) < 2 ^ (-1074 : ℤ) := zpow_pos two_pos _
  have below : n ≤ -1 := by
    have : (n : ℚ) < 0 := by
      by_contra notBelow
      exact absurd negative (mul_nonneg (not_lt.mp notBelow) unit.le).not_gt
    have : n < 0 := by exact_mod_cast this
    omega
  have least : IsShort ((-1 : ℤ) * 2 ^ (-1074 : ℤ)) := ⟨-1, -1074, rfl, by decide, le_rfl⟩
  calc u ≤ (-1 : ℤ) * 2 ^ (-1074 : ℤ) :=
        h.mono least.nearValue (mul_le_mul_of_nonneg_right (by exact_mod_cast below) unit.le)
    _ < 0 := by
        rw [Int.cast_neg, Int.cast_one, neg_one_mul]
        exact neg_neg_of_pos unit

end NearValue

end Number

end CabScript
