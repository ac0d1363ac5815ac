import CabScript.Proofs.NearestDouble
import CabScript.Proofs.WholeSums

/-!
# Arithmetic on doubles

Each operation computes on exponents and mantissas, and rounds once: what it yields is the double
nearest to what the same operation yields on the values. A quotient of mantissas has a remainder,
which tells on which side of the next half unit the exact quotient is; so has a root, which is not a
rational number, but stands for one as close to it. Rounding down to an integral double loses
nothing.

## Main statements

* `Number.nearest_add`, `Number.nearest_sub`, `Number.nearest_mul`, `Number.nearest_div`.
* `Number.exists_nearest_sqrt`: square roots.
* `Number.value?_floor`: the integral double below a double.
-/

namespace CabScript

open Float.Model (Format UnpackedFloat totalExponent)
open Float.Model.UnpackedFloat

namespace Number

variable {x y : Float} {v w : ℚ} {a b : UnpackedFloat} {s t : Sign} {m n : ℕ} {e : ℤ}

/-! ## Signs -/

theorem neg_withSign (s : Sign) (v : ℚ) : -withSign s v = withSign (-s) v := by
  cases s
  · exact neg_neg v
  · rfl

theorem withSign_mul_withSign (s t : Sign) (v w : ℚ) :
    withSign s v * withSign t w = withSign (s * t) (v * w) := by
  cases s <;> cases t
  · exact neg_mul_neg ..
  · exact neg_mul ..
  · exact mul_neg ..
  · rfl

theorem withSign_div_withSign (s t : Sign) (v w : ℚ) :
    withSign s v / withSign t w = withSign (s / t) (v / w) := by
  cases s <;> cases t
  · exact neg_div_neg_eq ..
  · exact neg_div ..
  · exact div_neg ..
  · rfl

theorem withSign_signOf (i : ℤ) (v : ℚ) : withSign (signOf i) (i.natAbs * v) = i * v := by
  have signed := congrArg (Int.cast : ℤ → ℚ) (signOf_apply_natAbs i)
  cases sign : signOf i <;> rw [sign] at signed <;>
    simp only [Sign.apply, Int.cast_neg, Int.cast_natCast] at signed
  · rw [withSign, ← neg_mul, signed]
  · rw [withSign, signed]

/-! ## One rounding -/

/-- A zero is packed as it is. -/
theorem nearest_zero (s : Sign) : Nearest 0 (.ofModel (.pack (.zero s))) :=
  nearest_self (value?_of_zero (by cases s <;> rfl))

/-- What is unpacked is packed again. -/
theorem nearest_pack (h : Holds a v) : Nearest v (.ofModel (.pack a)) := by
  cases h with
  | zero s => exact nearest_zero s
  | finite s p canonical =>
    have mem : p.value ∈ p.interval := p.value_eq_quarters ▸ p.quarters_mem_interval
    exact nearest_withSign p.value_pos.le (rounded_pack_canonical s canonical mem)

/-- A mantissa without a remainder stands for itself. -/
theorem standsFor_exact (m : ℕ) (e : ℤ) :
    StandsFor (.ofMantissaAndAccuracy m .exact) (m * 2 ^ e / 2 ^ e) := by
  have unit : (2 : ℚ) ^ e ≠ 0 := (zpow_pos two_pos e).ne'
  exact mul_div_cancel_right₀ _ unit

/-- A mantissa of any length is rounded, with any exponent. -/
theorem rounded_round (s : Sign) (pos : 0 < m) (e : ℤ) :
    Rounded s (m * 2 ^ e) (Float.Model.pack (UnpackedFloat.round .binary64 s m e)).unpack := by
  obtain ⟨k, hk⟩ : ∃ k, k = (e - Max.max ((m.log2 : ℤ) + e - 52) (-1074)).toNat := ⟨_, rfl⟩
  -- it is filled up with zeros as far as the exponent that fits
  have filled : (m : ℚ) * 2 ^ e = (m * 2 ^ k : ℕ) * 2 ^ (e - k) := by
    rw [zpow_sub₀ two_ne_zero, zpow_natCast]
    push_cast
    field_simp
  have rounded : UnpackedFloat.round .binary64 s m e =
      roundWithAccuracy .binary64 s (m * 2 ^ k) (e - k) .exact := by
    simp only [UnpackedFloat.round, targetExponent_eq, decreaseExponent, ← hk, Nat.shiftLeft_eq]
  rw [filled, rounded]
  refine rounded_pack s (standsFor_exact _ _) ?_
  rw [log2_mul_two_pow pos]
  omega

/-- A mantissa with a sign is rounded. -/
theorem nearest_normalize (i e : ℤ) (zeroSign : Sign) :
    Nearest (i * 2 ^ e) (.ofModel (.pack (UnpackedFloat.normalize .binary64 i e zeroSign))) := by
  rcases eq_or_ne i 0 with rfl | nonzero
  · rw [Int.cast_zero, zero_mul]
    exact nearest_zero zeroSign
  · have unit : (0 : ℚ) < 2 ^ e := zpow_pos two_pos e
    rw [normalize_eq_round nonzero, ← withSign_signOf]
    exact nearest_withSign (by positivity)
      (rounded_round (signOf i) (Int.natAbs_pos.mpr nonzero) e)

/-! ## Sums -/

/-- A mantissa with a sign, taken to a lesser exponent. -/
theorem apply_decreaseExponent (s : Sign) (m : ℕ) {e f : ℤ} (le : f ≤ e) :
    ((s.apply (decreaseExponent m e f).1 : ℤ) : ℚ) * 2 ^ f = withSign s (m * 2 ^ e) := by
  rw [decreaseExponent, Nat.shiftLeft_eq, unit_eq le]
  cases s <;> simp only [Sign.apply, withSign] <;> push_cast <;> ring

theorem nearest_add_of_holds (ha : Holds a v) (hb : Holds b w) :
    Nearest (v + w) (.ofModel (.pack (UnpackedFloat.add .binary64 a b))) := by
  cases ha with
  | zero s =>
    rw [zero_add]
    cases hb with
    | zero t =>
      simp only [UnpackedFloat.add]
      split <;> exact nearest_zero _
    | finite t q canonical => exact nearest_pack (.finite t q canonical)
  | finite s p canonical =>
    cases hb with
    | zero t =>
      rw [add_zero]
      exact nearest_pack (.finite s p canonical)
    | finite t q canonical' =>
      have sum := nearest_normalize
        (s.apply (decreaseExponent p.mantissa p.exponent (Min.min p.exponent q.exponent)).1 +
          t.apply (decreaseExponent q.mantissa q.exponent (Min.min p.exponent q.exponent)).1)
        (Min.min p.exponent q.exponent) .positive
      rw [Int.cast_add, add_mul, apply_decreaseExponent s _ (min_le_left ..),
        apply_decreaseExponent t _ (min_le_right ..)] at sum
      exact sum

/-- **The sum of doubles** is the double nearest to the sum of their values. -/
theorem nearest_add (hx : value? x = some v) (hy : value? y = some w) : Nearest (v + w) (x + y) :=
  nearest_add_of_holds (holds_of_value? hx) (holds_of_value? hy)

theorem Holds.neg (h : Holds a v) : Holds a.neg (-v) := by
  cases h with
  | zero s => exact neg_zero (G := ℚ) ▸ .zero (-s)
  | finite s p canonical =>
    rw [neg_withSign]
    exact .finite (-s) p canonical

/-- A difference is a sum with what is negated. -/
theorem sub_eq_add_neg_unpacked (a b : UnpackedFloat) :
    UnpackedFloat.sub .binary64 a b = UnpackedFloat.add .binary64 a b.neg := by
  have apply_neg : ∀ (s : Sign) (i : ℤ), (-s).apply i = -s.apply i := by
    intro s i
    cases s
    · exact (neg_neg i).symm
    · rfl
  cases a <;> cases b <;>
    simp only [UnpackedFloat.sub, UnpackedFloat.add, UnpackedFloat.neg, apply_neg, sub_eq_add_neg]

/-- **The difference of doubles** is the double nearest to the difference of their values. -/
theorem nearest_sub (hx : value? x = some v) (hy : value? y = some w) :
    Nearest (v - w) (x - y) := by
  have sum := nearest_add_of_holds (holds_of_value? hx) (holds_of_value? hy).neg
  rw [← sub_eq_add_neg_unpacked, ← sub_eq_add_neg] at sum
  exact sum

/-! ## Products -/

/-- Two mantissas have as many bits together as fit, unless their exponents are small. -/
theorem exponent_add_le {p q : Positive} (hp : p.IsCanonical) (hq : q.IsCanonical) :
    p.exponent + q.exponent ≤ Max.max
      (((p.mantissa * q.mantissa).log2 : ℤ) + (p.exponent + q.exponent) - 52) (-1074) := by
  have pos := p.mantissa_pos
  have pos' := q.mantissa_pos
  have bits (full : 2 ^ 52 ≤ p.mantissa * q.mantissa) : 52 ≤ (p.mantissa * q.mantissa).log2 :=
    (Nat.le_log2 (Nat.mul_pos pos pos').ne').mpr full
  rcases hp.full with full | least
  · have := bits (full.trans (Nat.le_mul_of_pos_right _ pos'))
    omega
  · rcases hq.full with full' | least'
    · have := bits (full'.trans (Nat.le_mul_of_pos_left _ pos))
      omega
    · omega

theorem nearest_mul_of_holds (ha : Holds a v) (hb : Holds b w) :
    Nearest (v * w) (.ofModel (.pack (UnpackedFloat.mul .binary64 a b))) := by
  cases ha with
  | zero s =>
    rw [zero_mul]
    cases hb <;> exact nearest_zero _
  | finite s p canonical =>
    cases hb with
    | zero t =>
      rw [mul_zero]
      exact nearest_zero _
    | finite t q canonical' =>
      have scaled : p.value * q.value =
          (p.mantissa * q.mantissa : ℕ) * 2 ^ (p.exponent + q.exponent) := by
        rw [Positive.value, Positive.value, zpow_add₀ two_ne_zero]
        push_cast
        ring
      rw [withSign_mul_withSign]
      refine nearest_withSign (mul_pos p.value_pos q.value_pos).le ?_
      rw [scaled]
      exact rounded_pack _ (standsFor_exact _ _) (exponent_add_le canonical canonical')

/-- **The product of doubles** is the double nearest to the product of their values. -/
theorem nearest_mul (hx : value? x = some v) (hy : value? y = some w) : Nearest (v * w) (x * y) :=
  nearest_mul_of_holds (holds_of_value? hx) (holds_of_value? hy)

/-! ## Quotients -/

/-- A quotient of whole numbers and its remainder stand for the exact quotient. -/
theorem standsFor_div (m : ℕ) (pos : 0 < n) :
    StandsFor (.ofMantissaAndAccuracy (m / n) (accuracyOfFraction (m % n) n)) ((m : ℚ) / n) := by
  have divisor : (0 : ℚ) < n := by exact_mod_cast pos
  have split : (m : ℚ) / n = (m / n : ℕ) + (m % n : ℕ) / n := by
    rw [div_eq_iff divisor.ne', add_mul, div_mul_cancel₀ _ divisor.ne']
    exact_mod_cast (Nat.div_add_mod' m n).symm
  have less : m % n < n := Nat.mod_lt m pos
  generalize m / n = k at split ⊢
  generalize m % n = r at split less ⊢
  rw [split]
  have remainder : (r : ℚ) < n := by exact_mod_cast less
  unfold accuracyOfFraction
  split_ifs with zero
  · rw [zero, Nat.cast_zero, zero_div, add_zero]
    rfl
  · have positive : (0 : ℚ) < r := by exact_mod_cast Nat.pos_of_ne_zero zero
    have fraction : (0 : ℚ) < r / n := div_pos positive divisor
    have whole : (r : ℚ) / n < 1 := (div_lt_one divisor).mpr remainder
    rcases lt_trichotomy (2 * r) n with below | tie | above
    · rw [Nat.compare_eq_lt.mpr below]
      have below : (2 * r : ℚ) < n := by exact_mod_cast below
      have half : (r : ℚ) / n < 1 / 2 := by
        rw [div_lt_div_iff₀ divisor two_pos]
        linarith
      constructor <;> linarith
    · rw [Nat.compare_eq_eq.mpr tie]
      have tie : (2 * r : ℚ) = n := by exact_mod_cast tie
      show (k : ℚ) + r / n = k + 1 / 2
      rw [← tie, div_mul_cancel_right₀ positive.ne', one_div]
    · rw [Nat.compare_eq_gt.mpr above]
      have above : (n : ℚ) < 2 * r := by exact_mod_cast above
      have half : (1 : ℚ) / 2 < r / n := by
        rw [div_lt_div_iff₀ two_pos divisor]
        linarith
      constructor <;> linarith

/-- The dividend has been filled up with zeros until the quotient has as many bits as fit. -/
theorem exponent_le_of_quotient {p q : Positive} {f : ℤ}
    (target : f = Min.min (p.exponent - q.exponent)
      (Format.targetExponent .binary64
        (totalExponent p.mantissa p.exponent - totalExponent q.mantissa q.exponent))) :
    f ≤ Max.max (((p.mantissa * 2 ^ (p.exponent - q.exponent - f).toNat / q.mantissa).log2 : ℤ) +
      f - 52) (-1074) := by
  have pos := p.mantissa_pos
  have pos' := q.mantissa_pos
  simp only [Format.targetExponent, totalExponent, Format.mantissaBits,
    Format.minExponent] at target
  rcases le_or_gt f (-1074) with least | greater
  · exact least.trans (le_max_right ..)
  · obtain ⟨k, hk⟩ : ∃ k, k = (p.exponent - q.exponent - f).toNat := ⟨_, rfl⟩
    rw [← hk]
    have bits : q.mantissa.log2 + 53 ≤ (p.mantissa * 2 ^ k).log2 := by
      rw [log2_mul_two_pow pos]
      omega
    have long : 2 ^ 52 * q.mantissa ≤ p.mantissa * 2 ^ k :=
      calc 2 ^ 52 * q.mantissa ≤ 2 ^ 52 * 2 ^ (q.mantissa.log2 + 1) :=
            Nat.mul_le_mul_left _ Nat.lt_log2_self.le
        _ = 2 ^ (q.mantissa.log2 + 53) := by rw [← Nat.pow_add]; congr 1; omega
        _ ≤ p.mantissa * 2 ^ k :=
            (Nat.le_log2 (Nat.mul_pos pos (Nat.two_pow_pos k)).ne').mp bits
    have full : 2 ^ 52 ≤ p.mantissa * 2 ^ k / q.mantissa := (Nat.le_div_iff_mul_le pos').mpr long
    have : 52 ≤ (p.mantissa * 2 ^ k / q.mantissa).log2 :=
      (Nat.le_log2 ((Nat.two_pow_pos 52).trans_le full).ne').mpr full
    omega

/-- A quotient of doubles is one of whole numbers in units that fit, rounded once. -/
theorem exists_div_eq_round (p q : Positive) : ∃ (n : ℕ) (f : ℤ),
    p.value / q.value / 2 ^ f = n / q.mantissa ∧
    f ≤ Max.max (((n / q.mantissa).log2 : ℤ) + f - 52) (-1074) ∧
    ∀ s t, UnpackedFloat.div .binary64 (.finite s p.mantissa p.exponent p.mantissa_pos)
        (.finite t q.mantissa q.exponent q.mantissa_pos) =
      roundWithAccuracy .binary64 (s / t) (n / q.mantissa) f
        (accuracyOfFraction (n % q.mantissa) q.mantissa) := by
  obtain ⟨f, target⟩ : ∃ f, f = Min.min (p.exponent - q.exponent)
    (Format.targetExponent .binary64
      (totalExponent p.mantissa p.exponent - totalExponent q.mantissa q.exponent)) := ⟨_, rfl⟩
  have ready := exponent_le_of_quotient target
  obtain ⟨k, hk⟩ : ∃ k, k = (p.exponent - q.exponent - f).toNat := ⟨_, rfl⟩
  rw [← hk] at ready
  refine ⟨p.mantissa * 2 ^ k, f, ?_, ready, fun s t => ?_⟩
  · have exponent : p.exponent = k + q.exponent + f := by omega
    have divisor : (q.mantissa : ℚ) ≠ 0 := by exact_mod_cast q.mantissa_pos.ne'
    have unit : (2 : ℚ) ^ q.exponent ≠ 0 := (zpow_pos two_pos _).ne'
    have unit' : (2 : ℚ) ^ f ≠ 0 := (zpow_pos two_pos _).ne'
    rw [Positive.value, Positive.value, exponent, zpow_add₀ two_ne_zero, zpow_add₀ two_ne_zero,
      zpow_natCast]
    push_cast
    field_simp
  · simp only [UnpackedFloat.div, divCore, ← target, ← hk, Nat.shiftLeft_eq]

theorem nearest_div_of_holds (ha : Holds a v) (hb : Holds b w) (nonzero : w ≠ 0) :
    Nearest (v / w) (.ofModel (.pack (UnpackedFloat.div .binary64 a b))) := by
  cases hb with
  | zero => exact absurd rfl nonzero
  | finite t q canonical' =>
    cases ha with
    | zero s =>
      rw [zero_div]
      exact nearest_zero _
    | finite s p canonical =>
      obtain ⟨n, f, filled, ready, divided⟩ := exists_div_eq_round p q
      rw [withSign_div_withSign, divided]
      exact nearest_withSign (div_pos p.value_pos q.value_pos).le
        (rounded_pack _ (filled ▸ standsFor_div n q.mantissa_pos) ready)

/-- **The quotient of doubles** is the double nearest to the quotient of their values. -/
theorem nearest_div (hx : value? x = some v) (hy : value? y = some w) (nonzero : w ≠ 0) :
    Nearest (v / w) (x / y) :=
  nearest_div_of_holds (holds_of_value? hx) (holds_of_value? hy) nonzero

/-! ## Square roots -/

/-- What is known of the places behind a root that has been rounded down. A root is never half a
unit behind a whole number. -/
def rootAccuracy (n : ℕ) : Accuracy :=
  if n - n.sqrt * n.sqrt = 0 then .exact
  else .inexact (if n - n.sqrt * n.sqrt ≤ n.sqrt then .lt else .gt)

/-- A root rounded down and its remainder stand for a number between the root and the next one. -/
theorem exists_standsFor_sqrt (n : ℕ) :
    ∃ q : ℚ, q ∈ Set.Ico (n.sqrt : ℚ) (n.sqrt + 1) ∧
      StandsFor (.ofMantissaAndAccuracy n.sqrt (rootAccuracy n)) q := by
  unfold rootAccuracy
  split_ifs
  · exact ⟨n.sqrt, ⟨le_rfl, lt_add_one _⟩, rfl⟩
  · refine ⟨n.sqrt + 1 / 4, ⟨by linarith, by linarith⟩, ?_⟩
    constructor <;> linarith
  · refine ⟨n.sqrt + 3 / 4, ⟨by linarith, by linarith⟩, ?_⟩
    constructor <;> linarith

/-- The square of such a number is not much greater than the radicand. -/
theorem sq_le_of_mem_Ico_sqrt {q : ℚ} (pos : 0 < n)
    (mem : q ∈ Set.Ico (n.sqrt : ℚ) (n.sqrt + 1)) : q ^ 2 ≤ 4 * n := by
  have one : (1 : ℚ) ≤ n.sqrt := by exact_mod_cast Nat.sqrt_pos.mpr pos
  have square : (n.sqrt : ℚ) * n.sqrt ≤ n := by exact_mod_cast n.sqrt_le
  have double : q ≤ 2 * n.sqrt := by linarith [mem.2]
  have nonneg : 0 ≤ q := (Nat.cast_nonneg _).trans mem.1
  calc q ^ 2 ≤ (2 * n.sqrt) ^ 2 := pow_le_pow_left₀ nonneg double 2
    _ = 4 * (n.sqrt * n.sqrt) := by ring
    _ ≤ 4 * n := by linarith

/-- The radicand has been filled up with zeros until the root has as many bits as fit. -/
theorem exponent_le_of_root {p : Positive} {f : ℤ}
    (target : f = Min.min (p.exponent.ediv 2)
      (Format.targetExponent .binary64 ((totalExponent p.mantissa p.exponent + 1).ediv 2))) :
    f ≤ Max.max (((p.mantissa * 2 ^ (p.exponent - 2 * f).toNat).sqrt.log2 : ℤ) + f - 52)
      (-1074) := by
  have pos := p.mantissa_pos
  have half (i : ℤ) : i.ediv 2 = i / 2 := rfl
  simp only [half, Format.targetExponent, totalExponent, Format.mantissaBits,
    Format.minExponent] at target
  rcases le_or_gt f (-1074) with least | greater
  · exact least.trans (le_max_right ..)
  · obtain ⟨k, hk⟩ : ∃ k, k = (p.exponent - 2 * f).toNat := ⟨_, rfl⟩
    rw [← hk]
    have bits : 104 ≤ (p.mantissa * 2 ^ k).log2 := by
      rw [log2_mul_two_pow pos]
      omega
    have full : 2 ^ 52 ≤ (p.mantissa * 2 ^ k).sqrt := by
      rw [Nat.le_sqrt, ← Nat.pow_add]
      exact (Nat.le_log2 (Nat.mul_pos pos (Nat.two_pow_pos k)).ne').mp bits
    have : 52 ≤ (p.mantissa * 2 ^ k).sqrt.log2 :=
      (Nat.le_log2 ((Nat.two_pow_pos 52).trans_le full).ne').mpr full
    omega

/-- The root of a double above zero is that of a whole number of even units, rounded once. -/
theorem exists_sqrt_eq_round (p : Positive) : ∃ (n : ℕ) (f : ℤ), 0 < n ∧
    p.value = n * (2 ^ f) ^ 2 ∧ f ≤ Max.max ((n.sqrt.log2 : ℤ) + f - 52) (-1074) ∧
    UnpackedFloat.sqrt .binary64 (.finite .positive p.mantissa p.exponent p.mantissa_pos) =
      roundWithAccuracy .binary64 .positive n.sqrt f (rootAccuracy n) := by
  obtain ⟨f, target⟩ : ∃ f, f = Min.min (p.exponent.ediv 2)
    (Format.targetExponent .binary64 ((totalExponent p.mantissa p.exponent + 1).ediv 2)) := ⟨_, rfl⟩
  have ready := exponent_le_of_root target
  have even : 2 * f ≤ p.exponent := by
    have half : p.exponent.ediv 2 = p.exponent / 2 := rfl
    omega
  obtain ⟨k, hk⟩ : ∃ k, k = (p.exponent - 2 * f).toNat := ⟨_, rfl⟩
  rw [← hk] at ready
  refine ⟨p.mantissa * 2 ^ k, f, Nat.mul_pos p.mantissa_pos (Nat.two_pow_pos k), ?_, ready, ?_⟩
  · have exponent : p.exponent = k + f + f := by omega
    rw [Positive.value, exponent, zpow_add₀ two_ne_zero, zpow_add₀ two_ne_zero, zpow_natCast]
    push_cast
    ring
  · simp only [UnpackedFloat.sqrt, sqrtCore, rootAccuracy, ← target, ← hk, Nat.shiftLeft_eq]

/-- **The square root of a double** that is not below zero is the double nearest to a number whose
square is not much greater than the value. -/
theorem exists_nearest_sqrt (hx : value? x = some v) (nonneg : 0 ≤ v) :
    ∃ q, Nearest q x.sqrt ∧ 0 ≤ q ∧ q ^ 2 ≤ 4 * v := by
  have root : x.sqrt = .ofModel (.pack (UnpackedFloat.sqrt .binary64 x.toModel.unpack)) := rfl
  rw [root]
  have holds := holds_of_value? hx
  generalize x.toModel.unpack = unpacked at holds
  cases holds with
  | zero s => exact ⟨0, nearest_zero s, le_rfl, by norm_num⟩
  | finite s p canonical =>
    obtain rfl : s = .positive := by
      cases s with
      | positive => rfl
      | negative => exact absurd (neg_neg_of_pos p.value_pos) nonneg.not_gt
    obtain ⟨n, f, pos, radicand, ready, rounded⟩ := exists_sqrt_eq_round p
    obtain ⟨q, mem, stands⟩ := exists_standsFor_sqrt n
    have unit : (0 : ℚ) < 2 ^ f := zpow_pos two_pos f
    have nonneg : 0 ≤ q := (Nat.cast_nonneg _).trans mem.1
    refine ⟨q * 2 ^ f, ?_, by positivity, ?_⟩
    · rw [rounded]
      refine nearest_withSign (s := .positive) (by positivity) (rounded_pack _ ?_ ready)
      rwa [mul_div_cancel_right₀ _ unit.ne']
    · rw [withSign, radicand, mul_pow, ← mul_assoc]
      exact mul_le_mul_of_nonneg_right (sq_le_of_mem_Ico_sqrt pos mem) (by positivity)

/-! ## Infinities -/

theorem not_isFinite_of_infinity {s : Sign} (held : x.toModel.unpack = .infinity s) :
    x.isFinite = false := by
  show x.toModel.unpack.isFinite = false
  rw [held]
  rfl

theorem not_isNaN_of_infinity {s : Sign} (held : x.toModel.unpack = .infinity s) :
    x.isNaN = false := by
  show x.toModel.unpack.isNaN = false
  rw [held]
  rfl

/-- An infinity is packed as it is. -/
theorem unpack_pack_infinity (s : Sign) :
    (Float.Model.pack (.infinity s)).unpack = .infinity s := by
  cases s <;> rfl

theorem unpack_sub_infinity {s : Sign} (hx : value? x = some v)
    (held : y.toModel.unpack = .infinity s) : (x - y).toModel.unpack = .infinity (-s) := by
  show (Float.Model.pack (UnpackedFloat.sub .binary64 x.toModel.unpack y.toModel.unpack)).unpack = _
  have holds := holds_of_value? hx
  generalize x.toModel.unpack = unpacked at holds ⊢
  rw [held]
  cases holds <;> exact unpack_pack_infinity _

theorem unpack_mul_infinity {s : Sign} (hx : value? x = some v) (nonzero : v ≠ 0)
    (held : y.toModel.unpack = .infinity s) : ∃ t, (x * y).toModel.unpack = .infinity t := by
  show ∃ t,
    (Float.Model.pack (UnpackedFloat.mul .binary64 x.toModel.unpack y.toModel.unpack)).unpack = _
  have holds := holds_of_value? hx
  generalize x.toModel.unpack = unpacked at holds ⊢
  rw [held]
  cases holds with
  | zero => exact absurd rfl nonzero
  | finite t => exact ⟨_, unpack_pack_infinity _⟩

end Number

/-! ## Rounding down -/

/-- The quotient rounded down is the value rounded down. -/
theorem Exact.floor_eq (x : Exact) : x.floor = ⌊x.value⌋ := by
  rw [Exact.floor, x.value_eq_div, Rat.floor_intCast_div_natCast,
    Int.fdiv_eq_ediv_of_nonneg _ (Int.natCast_nonneg _)]

namespace Number

variable {x : Float} {v : ℚ}

/-- An infinite double, or a NaN, is not rounded. -/
theorem floor_of_not_finite (infinite : x.isFinite = false) : floor x = x := by
  change x.toModel.unpack.isFinite = false at infinite
  rw [floor, toIntegral]
  generalize x.toModel.unpack = unpacked at infinite ⊢
  cases unpacked with
  | infinity | notANumber | zero => rfl
  | finite => cases infinite

/-- The floor of a number with a fraction has the sign of the number, or is zero. -/
theorem apply_natAbs_floor {s : Sign} (nonneg : 0 ≤ v) :
    s.apply ⌊withSign s v⌋.natAbs = ⌊withSign s v⌋ := by
  cases s with
  | negative =>
    have : ⌊-v⌋ ≤ 0 := Int.floor_nonpos (neg_nonpos.mpr nonneg)
    show -(⌊-v⌋.natAbs : ℤ) = ⌊-v⌋
    omega
  | positive => exact Int.natAbs_of_nonneg (Int.floor_nonneg.mpr nonneg)

/-- **Rounding down to a double loses nothing.** -/
theorem value?_floor (hx : value? x = some v) : value? (floor x) = some (⌊v⌋ : ℚ) := by
  have holds := holds_of_value? hx
  generalize held : x.toModel.unpack = unpacked at holds
  cases holds with
  | zero s =>
    have kept : floor x = x := by rw [floor, toIntegral, held]
    rw [kept, hx, Int.floor_zero, Int.cast_zero]
  | finite s p canonical =>
    rcases le_or_gt 0 p.exponent with integral | fraction
    · have kept : floor x = x := by
        rw [floor, toIntegral, held]
        exact if_pos integral
      obtain ⟨i, hi⟩ : ∃ i : ℤ, withSign s p.value = i := by
        obtain ⟨k, hk⟩ := Positive.exists_value_eq integral
        rw [hk]
        cases s
        · exact ⟨-k, by push_cast; rfl⟩
        · exact ⟨k, rfl⟩
      rw [kept, hx, hi, Int.floor_intCast]
    · have exact : Exact.value ⟨s.apply p.mantissa, p.exponent⟩ = withSign s p.value := by
        cases s <;> simp [Exact.value, withSign, Sign.apply, Positive.value]
      have rounded : floor x = ofSignedNat s ⌊withSign s p.value⌋.natAbs := by
        simp only [floor, toIntegral, held, fraction.not_ge, if_false, Exact.floor_eq, exact]
      have short : ⌊withSign s p.value⌋.natAbs < 2 ^ 53 := by
        have small := Positive.value_lt_of_exponent_neg canonical fraction
        have positive := p.value_pos
        push_cast at small
        have low : -2 ^ 52 ≤ ⌊withSign s p.value⌋ := by
          rw [Int.le_floor]
          push_cast
          cases s <;> simp only [withSign] <;> linarith
        have high : ⌊withSign s p.value⌋ < 2 ^ 52 := by
          rw [Int.floor_lt]
          push_cast
          cases s <;> simp only [withSign] <;> linarith
        omega
      rw [rounded, value?_ofSignedNat s short, apply_natAbs_floor p.value_pos.le]

end Number

end CabScript
