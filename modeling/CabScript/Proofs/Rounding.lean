import CabScript.Proofs.NearestInteger

/-!
# Rounding to a double

Arithmetic on doubles ends in one rounding. It starts from a mantissa that may be too long, an
exponent, and what is known of the places behind the mantissa. The mantissa is shifted until it
fits, two bits keep the trace of what is shifted out, and they decide which neighbour is taken. What
comes out is the double in whose interval the number is, or a zero, or an infinity.

## Main definitions

* `Number.StandsFor`: the numbers that a mantissa with its two bits stands for.
* `Number.overflow`, `Number.underflow`: where the infinities begin and where the zeros end.
* `Number.Rounded`: what a number above zero is rounded to.

## Main statements

* `Number.StandsFor.shiftRight`: the bits keep the trace of all that is shifted out.
* `Number.StandsFor.isHalfEven`: the bits decide as rounding half to even does.
* `Number.rounded_pack`: what is rounded and packed is the double of the number.
-/

namespace CabScript

open Float.Model (Format UnpackedFloat totalExponent)
open Float.Model.UnpackedFloat

namespace Number

variable {s : Sign} {m n : ℕ} {e : ℤ} {v : ℚ}

/-! ## The trace of what is shifted out -/

/-- The numbers that a mantissa with its two bits stands for: its own, or those up to the next half
unit, the half unit, or those behind it. -/
def StandsFor : ExtendedMantissa → ℚ → Prop
  | ⟨m, false, false⟩, v => v = m
  | ⟨m, false, true⟩, v => m < v ∧ v < m + 1 / 2
  | ⟨m, true, false⟩, v => v = m + 1 / 2
  | ⟨m, true, true⟩, v => m + 1 / 2 < v ∧ v < m + 1

namespace StandsFor

variable {em : ExtendedMantissa}

/-- They are less than a unit apart. -/
theorem mem_Ico (h : StandsFor em v) : v ∈ Set.Ico (em.mantissa : ℚ) (em.mantissa + 1) := by
  obtain ⟨m, _ | _, _ | _⟩ := em <;> simp only [StandsFor] at h <;>
    constructor <;> simp only <;> linarith

/-- A place that is shifted out leaves its trace. -/
theorem shiftRightOne (h : StandsFor em v) : StandsFor em.shiftRightOne (v / 2) := by
  obtain ⟨m, round, sticky⟩ := em
  rcases Nat.even_or_odd' m with ⟨k, rfl | rfl⟩
  · have half : 2 * k / 2 = k := by omega
    cases round <;> cases sticky <;>
      simp only [StandsFor, ExtendedMantissa.shiftRightOne, half, Nat.mul_mod_right,
        bne_self_eq_false, Bool.or_false, Bool.or_true, Bool.or_self, Nat.cast_mul, Nat.cast_ofNat] at h ⊢ <;>
      first | linarith | constructor <;> linarith
  · have half : (2 * k + 1) / 2 = k := by omega
    have odd : ((2 * k + 1) % 2 != 0) = true := by
      rw [show (2 * k + 1) % 2 = 1 by omega]
      rfl
    cases round <;> cases sticky <;>
      simp only [StandsFor, ExtendedMantissa.shiftRightOne, half, odd, Bool.or_false, Bool.or_true,
        Bool.or_self, Nat.cast_add, Nat.cast_mul, Nat.cast_ofNat, Nat.cast_one] at h ⊢ <;>
      first | linarith | constructor <;> linarith

/-- **All places that are shifted out leave their trace.** -/
theorem shiftRight (h : StandsFor em v) (amount : ℕ) :
    StandsFor (em >>> amount) (v / 2 ^ amount) := by
  show StandsFor (amount.repeat ExtendedMantissa.shiftRightOne em) _
  induction amount with
  | zero => simpa [Nat.repeat] using h
  | succ amount ih =>
    rw [Nat.repeat, pow_succ, ← div_div]
    exact ih.shiftRightOne

/-- **The bits decide as rounding half to even does.** -/
theorem isHalfEven (h : StandsFor em v) : IsHalfEven v em.roundedMantissa := by
  obtain ⟨m, _ | _, _ | _⟩ := em
  · obtain rfl : v = m := h
    exact .intCast m
  · obtain ⟨low, high⟩ : (m : ℚ) < v ∧ v < m + 1 / 2 := h
    have near : |v - m| < 1 / 2 := by
      rw [abs_lt]
      constructor <;> linarith
    exact ⟨near.le, fun tie => absurd tie near.ne⟩
  · obtain rfl : v = m + 1 / 2 := h
    -- the even neighbour is the one that the remainder by two is added for
    have even : Even (m + m % 2) := by
      rw [Nat.even_iff]
      omega
    refine ⟨?_, fun _ => by exact_mod_cast even⟩
    show |(m : ℚ) + 1 / 2 - ((m + m % 2 : ℕ) : ℤ)| ≤ 1 / 2
    rcases Nat.mod_two_eq_zero_or_one m with zero | one
    · rw [zero]
      norm_num
    · rw [one]
      push_cast
      rw [show (m : ℚ) + 1 / 2 - (m + 1) = -(1 / 2) by ring]
      norm_num
  · obtain ⟨low, high⟩ : (m + 1 / 2 : ℚ) < v ∧ v < m + 1 := h
    have near : |v - ((m + 1 : ℕ) : ℤ)| < 1 / 2 := by
      push_cast
      rw [abs_lt]
      constructor <;> linarith
    exact ⟨near.le, fun tie => absurd tie near.ne⟩

end StandsFor

/-! ## Rounding of what is shifted -/

theorem targetExponent_eq (m : ℕ) (e : ℤ) :
    Format.targetExponent .binary64 (totalExponent m e) =
      Max.max ((m.log2 : ℤ) + e - 52) (-1074) := by
  simp only [Format.targetExponent, totalExponent, Format.mantissaBits, Format.minExponent]
  omega

/-- What fits is not shifted. -/
theorem shiftToTargetExponent_of_short (short : n < 2 ^ 53) (least : -1074 ≤ e) :
    shiftToTargetExponent .binary64 n e .exact = (⟨n, false, false⟩, e) := by
  have bits : n.log2 ≤ 52 := by
    rcases Nat.eq_zero_or_pos n with rfl | pos
    · exact Nat.zero_le 52
    · exact Nat.le_of_lt_succ ((Nat.log2_lt pos.ne').mpr short)
  have amount : (Max.max ((n.log2 : ℤ) + e - 52) (-1074) - e).toNat = 0 := by omega
  rw [shiftToTargetExponent, targetExponent_eq, shiftToExponent, amount]
  exact Prod.ext rfl (add_zero e)

/-- What is too long is shifted to the exponent that fits. -/
theorem shiftToTargetExponent_eq (accuracy : Accuracy) {t : ℤ}
    (target : t = Max.max ((m.log2 : ℤ) + e - 52) (-1074)) (ready : e ≤ t) :
    shiftToTargetExponent .binary64 m e accuracy =
      (ExtendedMantissa.ofMantissaAndAccuracy m accuracy >>> (t - e).toNat, t) := by
  rw [shiftToTargetExponent, targetExponent_eq, ← target, shiftToExponent, Prod.mk.injEq]
  exact ⟨rfl, by omega⟩

section Shifted

variable {em : ExtendedMantissa} {t : ℤ} {accuracy : Accuracy}
  (shifted : shiftToTargetExponent .binary64 m e accuracy = (em, t)) (least : -1074 ≤ t)

include shifted least

theorem roundWithAccuracy_of_zero (s : Sign) (zero : em.roundedMantissa = 0) :
    roundWithAccuracy .binary64 s m e accuracy = .zero s := by
  unfold roundWithAccuracy
  simp only [shifted, zero, shiftToTargetExponent_of_short (Nat.two_pow_pos 53) least]
  rfl

theorem roundWithAccuracy_of_short (s : Sign) (pos : 0 < em.roundedMantissa)
    (short : em.roundedMantissa < 2 ^ 53) :
    roundWithAccuracy .binary64 s m e accuracy = .finite s em.roundedMantissa t pos := by
  unfold roundWithAccuracy
  simp only [shifted, shiftToTargetExponent_of_short short least]
  exact dif_neg pos.ne'

/-- One bit too many is shifted out again. -/
theorem roundWithAccuracy_of_carried (s : Sign) (carried : em.roundedMantissa = 2 ^ 53) :
    roundWithAccuracy .binary64 s m e accuracy =
      .finite s (2 ^ 52) (t + 1) (Nat.two_pow_pos 52) := by
  unfold roundWithAccuracy
  simp only [shifted, carried, shiftToTargetExponent_carried least]
  rfl

end Shifted

/-! ## What is packed -/

/-- A mantissa with fewer bits is held at the least exponent. -/
theorem unpack_pack_of_short (s : Sign) (pos : 0 < m) (short : m < 2 ^ 52) :
    (Float.Model.pack (.finite s m (-1074) pos)).unpack = .finite s m (-1074) pos := by
  have bits : m.log2 < 52 := (Nat.log2_lt pos.ne').mpr short
  have field : (BitVec.ofNat 52 m).toNat = m := by
    rw [BitVec.toNat_ofNat, Nat.mod_eq_of_lt short]
  have nonzero : BitVec.ofNat 52 m ≠ 0#52 := by
    intro same
    have := congrArg BitVec.toNat same
    rw [field] at this
    exact pos.ne' this
  have packed : UnpackedFloat.pack .binary64 (.finite s m (-1074) pos) =
      packComponents .binary64 s 0#11 (BitVec.ofNat 52 m) := by
    have normal : ¬ m.log2 + 1 = Format.mantissaBits .binary64 := by
      show ¬ m.log2 + 1 = 53
      omega
    simp only [UnpackedFloat.pack, if_neg normal]
    rfl
  show unpack .binary64 (UnpackedFloat.pack .binary64 _) = _
  rw [packed]
  have notLast : (0#11 : BitVec 11) ≠ -1#11 := by decide
  simp only [unpack, unpackMantissa_packComponents, unpackExponent_packComponents,
    unpackSign_packComponents, ofBitVec_toBitVec, notLast, nonzero, if_false, if_true, dif_neg,
    not_false_iff]
  simp only [field]
  rfl

/-- **A double as binary64 writes it is held as it is,** or it is infinite. -/
theorem unpack_pack_canonical (s : Sign) {p : Positive} (hp : p.IsCanonical) :
    (Float.Model.pack (.finite s p.mantissa p.exponent p.mantissa_pos)).unpack =
      if p.exponent ≤ 971 then .finite s p.mantissa p.exponent p.mantissa_pos
      else .infinity s := by
  rcases hp.full with full | least
  · exact unpack_pack s ⟨full, hp.short⟩ hp.least
  · rcases Nat.lt_or_ge p.mantissa (2 ^ 52) with short | full
    · obtain ⟨m, e, pos⟩ := p
      obtain rfl : e = -1074 := least
      exact unpack_pack_of_short s pos short
    · exact unpack_pack s ⟨full, hp.short⟩ hp.least

/-! ## Numbers and their doubles -/

/-- The numbers from here on are rounded to an infinity. -/
def overflow : ℚ :=
  (2 ^ 54 - 1) * 2 ^ 970

/-- The numbers up to here are rounded to a zero. -/
def underflow : ℚ :=
  2 ^ (-1075 : ℤ)

/-- What a number above zero is rounded to, with a sign. -/
inductive Rounded (s : Sign) (v : ℚ) : UnpackedFloat → Prop
  | zero (small : v ≤ underflow) : Rounded s v (.zero s)
  | finite (p : Positive) (canonical : p.IsCanonical) (fits : p.exponent ≤ 971)
    (mem : v ∈ p.interval) : Rounded s v (.finite s p.mantissa p.exponent p.mantissa_pos)
  | infinity (large : overflow ≤ v) : Rounded s v (.infinity s)

end Number

namespace Positive

variable {p : Positive} {v : ℚ}

theorem quarter_mul_four (p : Positive) : p.quarter * 4 = 2 ^ p.exponent := by
  rw [quarter, zpow_sub₀ two_ne_zero]
  norm_num

/-- A number is in the interval of the mantissa that it is rounded to at the exponent. At a power of
two the interval is narrower from below. -/
theorem mem_interval_of_isHalfEven (near : IsHalfEven (v / 2 ^ p.exponent) p.mantissa)
    (above : p.narrowBelow = true → p.value ≤ v) : v ∈ p.interval := by
  have unit : (0 : ℚ) < 2 ^ p.exponent := zpow_pos two_pos _
  have scaled : v = 4 * (v / 2 ^ p.exponent) * p.quarter := by
    rw [mul_comm 4, mul_assoc, mul_comm 4, quarter_mul_four, div_mul_cancel₀ _ unit.ne']
  have lower : (p.lowerQuarters : ℚ) = 4 * p.mantissa - if p.narrowBelow then 1 else 2 := by
    have := p.mantissa_pos
    unfold lowerQuarters
    split_ifs <;> rw [Nat.cast_sub (by omega)] <;> push_cast <;> rfl
  have upper : (p.upperQuarters : ℚ) = 4 * p.mantissa + 2 := by
    unfold upperQuarters
    push_cast
    rfl
  have quarters : p.narrowBelow = true → (p.mantissa : ℚ) ≤ v / 2 ^ p.exponent := fun narrow => by
    rw [le_div_iff₀ unit]
    exact above narrow
  obtain ⟨low, high⟩ := abs_le.mp near.near
  rw [Int.cast_natCast] at low high
  unfold interval
  split_ifs with even
  · rw [scaled]
    refine ⟨mul_le_mul_of_nonneg_right ?_ p.quarter_pos.le,
      mul_le_mul_of_nonneg_right ?_ p.quarter_pos.le⟩
    · rw [lower]
      split_ifs with narrow
      · linarith [quarters narrow]
      · linarith
    · rw [upper]
      linarith
  · -- an odd mantissa is not taken where another one is as near
    have odd : ¬ Even (p.mantissa : ℤ) := by
      rw [Int.even_coe_nat, Nat.even_iff]
      exact even
    have strict : |v / 2 ^ p.exponent - ((p.mantissa : ℤ) : ℚ)| < 1 / 2 :=
      near.near.lt_of_ne fun tie => odd (near.tie tie)
    obtain ⟨low, high⟩ := abs_lt.mp strict
    rw [Int.cast_natCast] at low high
    rw [scaled]
    refine ⟨mul_lt_mul_of_pos_right ?_ p.quarter_pos, mul_lt_mul_of_pos_right ?_ p.quarter_pos⟩
    · rw [lower]
      split_ifs with narrow
      · linarith [quarters narrow]
      · linarith
    · rw [upper]
      linarith

/-- Powers of two are doubles. -/
theorem isCanonical_power {t : ℤ} (least : -1074 ≤ t) {pos : 0 < 2 ^ 52} :
    IsCanonical ⟨2 ^ 52, t, pos⟩ where
  short := by norm_num
  least := least
  full := .inl le_rfl

/-- The numbers below a power of two that are rounded up to it. -/
theorem mem_interval_of_carried {t : ℤ} (least : -1074 ≤ t) {pos : 0 < 2 ^ 52}
    (near : 2 ^ 53 - 1 / 2 ≤ v / 2 ^ t) (below : v / 2 ^ t < 2 ^ 53) :
    v ∈ interval ⟨2 ^ 52, t + 1, pos⟩ := by
  have unit : (0 : ℚ) < 2 ^ t := zpow_pos two_pos _
  have scaled : v = 2 * (v / 2 ^ t) * quarter ⟨2 ^ 52, t + 1, pos⟩ := by
    rw [quarter, show t + 1 - 2 = t - 1 by ring, zpow_sub_one₀ two_ne_zero]
    field_simp
  have lower : ((lowerQuarters ⟨2 ^ 52, t + 1, pos⟩ : ℕ) : ℚ) = 2 ^ 54 - 1 := by
    have narrow : narrowBelow ⟨2 ^ 52, t + 1, pos⟩ = true := by
      simp [narrowBelow]
      omega
    rw [lowerQuarters, if_pos narrow]
    norm_num
  have upper : ((upperQuarters ⟨2 ^ 52, t + 1, pos⟩ : ℕ) : ℚ) = 2 ^ 54 + 2 := by
    rw [upperQuarters]
    norm_num
  have even : (2 ^ 52) % 2 = 0 := by norm_num
  rw [interval, if_pos even, lower, upper, scaled]
  have positive := quarter_pos ⟨2 ^ 52, t + 1, pos⟩
  exact ⟨mul_le_mul_of_nonneg_right (by linarith) positive.le,
    mul_le_mul_of_nonneg_right (by linarith) positive.le⟩

/-- The interval of a double that is too large begins where the infinities begin. -/
theorem overflow_le_of_mem_interval (hp : p.IsCanonical) (large : 971 < p.exponent)
    (mem : v ∈ p.interval) : Number.overflow ≤ v := by
  have full : 2 ^ 52 ≤ p.mantissa := hp.full.resolve_right (by omega)
  have lower : 2 ^ 54 - 1 ≤ p.lowerQuarters := by
    unfold lowerQuarters
    split_ifs with narrow
    · omega
    · have notLeast : p.mantissa ≠ 2 ^ 52 := by
        intro power
        simp [narrowBelow, power] at narrow
        omega
      omega
  have quarter : (2 : ℚ) ^ 970 ≤ p.quarter := by
    rw [quarter, ← zpow_natCast]
    exact zpow_le_zpow_right₀ one_le_two (by omega)
  calc Number.overflow = ((2 ^ 54 - 1 : ℕ) : ℚ) * 2 ^ 970 := by
        rw [Number.overflow]
        norm_num
    _ ≤ p.lowerQuarters * p.quarter :=
        mul_le_mul (by exact_mod_cast lower) quarter (by positivity) (by positivity)
    _ ≤ v := (le_of_mem_interval mem).1

end Positive

namespace Number

variable {s : Sign} {m : ℕ} {e : ℤ} {v : ℚ}

/-- The double of a number is packed as what the number is rounded to. -/
theorem rounded_pack_canonical (s : Sign) {pos : 0 < m}
    (canonical : Positive.IsCanonical ⟨m, e, pos⟩) (mem : v ∈ Positive.interval ⟨m, e, pos⟩) :
    Rounded s v (Float.Model.pack (.finite s m e pos)).unpack := by
  have held := unpack_pack_canonical s canonical
  simp only at held
  rw [held]
  split_ifs with fits
  · exact .finite ⟨m, e, pos⟩ canonical fits mem
  · exact .infinity (Positive.overflow_le_of_mem_interval canonical (not_le.mp fits) mem)

/-- What is left of a mantissa at the exponent that fits: at most 53 bits, and all of them count
except at the least exponent. -/
theorem shiftedMantissa_mem {t : ℤ} (target : t = Max.max ((m.log2 : ℤ) + e - 52) (-1074))
    (ready : e ≤ t) :
    m / 2 ^ (t - e).toNat < 2 ^ 53 ∧ (2 ^ 52 ≤ m / 2 ^ (t - e).toNat ∨ t = -1074) := by
  have high : m < 2 ^ (m.log2 + 1) := Nat.lt_log2_self
  constructor
  · rw [Nat.div_lt_iff_lt_mul (Nat.two_pow_pos _), ← Nat.pow_add]
    exact high.trans_le (Nat.pow_le_pow_right two_pos (by omega))
  · rcases eq_or_ne t (-1074) with least | notLeast
    · exact .inr least
    · -- there are bits to shift out, or exactly as many as fit
      have bits : 52 + (t - e).toNat = m.log2 := by omega
      have nonzero : m ≠ 0 := by
        rintro rfl
        rw [Nat.log2_zero] at bits
        omega
      left
      rw [Nat.le_div_iff_mul_le (Nat.two_pow_pos _), ← Nat.pow_add, bits]
      exact Nat.log2_self_le nonzero

/-- A number in units of the exponent that fits, and the mantissa that is left of it. -/
structure Shifted (v : ℚ) (em : ExtendedMantissa) (t : ℤ) : Prop where
  stands : StandsFor em (v / 2 ^ t)
  least : -1074 ≤ t
  short : em.mantissa < 2 ^ 53
  full : 2 ^ 52 ≤ em.mantissa ∨ t = -1074

namespace Shifted

variable {em : ExtendedMantissa} {t : ℤ}

/-- A mantissa whose exponent is not too great is shifted to it. -/
theorem of_ready {accuracy : Accuracy}
    (stands : StandsFor (.ofMantissaAndAccuracy m accuracy) (v / 2 ^ e))
    (target : t = Max.max ((m.log2 : ℤ) + e - 52) (-1074)) (ready : e ≤ t) :
    Shifted v (ExtendedMantissa.ofMantissaAndAccuracy m accuracy >>> (t - e).toNat) t := by
  have mantissa : (ExtendedMantissa.ofMantissaAndAccuracy m accuracy >>> (t - e).toNat).mantissa =
      m / 2 ^ (t - e).toNat := by
    rw [mantissa_shiftRight]
    cases accuracy with
    | exact => rfl
    | inexact half => cases half <;> rfl
  obtain ⟨short, full⟩ := shiftedMantissa_mem target ready
  rw [← mantissa] at short full
  have standsThere := stands.shiftRight (t - e).toNat
  rw [div_div, ← zpow_natCast, ← zpow_add₀ two_ne_zero,
    show e + ((t - e).toNat : ℤ) = t by omega] at standsThere
  exact ⟨standsThere, target ▸ le_max_right .., short, full⟩

/-- A number that is rounded to no units is rounded to a zero. -/
theorem le_underflow (h : Shifted v em t) (zero : em.roundedMantissa = 0) : v ≤ underflow := by
  have down := (roundedMantissa_mem em).1
  obtain rfl : t = -1074 := h.full.resolve_left (by omega)
  have unit : (0 : ℚ) < 2 ^ (-1074 : ℤ) := zpow_pos two_pos _
  have high := (abs_le.mp h.stands.isHalfEven.near).2
  rw [zero, Nat.cast_zero, Int.cast_zero, sub_zero, div_le_iff₀ unit] at high
  rw [underflow, show (-1075 : ℤ) = -1074 - 1 by norm_num, zpow_sub_one₀ two_ne_zero]
  linarith

/-- A number that is rounded to a mantissa that fits is in its interval. -/
theorem mem_interval (h : Shifted v em t) (pos : 0 < em.roundedMantissa) :
    v ∈ Positive.interval ⟨em.roundedMantissa, t, pos⟩ := by
  refine Positive.mem_interval_of_isHalfEven h.stands.isHalfEven fun narrow => ?_
  -- a power of two above the least exponent is the mantissa itself, rounded down
  have power : em.roundedMantissa = 2 ^ 52 ∧ -1074 < t := by
    simpa [Positive.narrowBelow] using narrow
  have down := (roundedMantissa_mem em).1
  have full := h.full
  have same : em.roundedMantissa = em.mantissa := by omega
  show (em.roundedMantissa : ℚ) * 2 ^ t ≤ v
  rw [same, ← le_div_iff₀ (zpow_pos two_pos t)]
  exact h.stands.mem_Ico.1

/-- A number that is rounded to one bit too many is in the interval of the power of two. -/
theorem mem_interval_of_carried (h : Shifted v em t) (carried : em.roundedMantissa = 2 ^ 53) :
    v ∈ Positive.interval ⟨2 ^ 52, t + 1, Nat.two_pow_pos 52⟩ := by
  apply Positive.mem_interval_of_carried h.least
  · have low := (abs_le.mp h.stands.isHalfEven.near).1
    rw [carried] at low
    push_cast at low
    linarith
  · have below : ((em.mantissa + 1 : ℕ) : ℚ) ≤ (2 ^ 53 : ℕ) := by exact_mod_cast h.short
    push_cast at below
    exact h.stands.mem_Ico.2.trans_le below

end Shifted

/-- **What is rounded and packed is the double of the number.** The exponent has to be small enough
that nothing is missing between the mantissa and the two bits. -/
theorem rounded_pack (s : Sign) {accuracy : Accuracy}
    (stands : StandsFor (.ofMantissaAndAccuracy m accuracy) (v / 2 ^ e))
    (ready : e ≤ Max.max ((m.log2 : ℤ) + e - 52) (-1074)) :
    Rounded s v (Float.Model.pack (roundWithAccuracy .binary64 s m e accuracy)).unpack := by
  obtain ⟨t, target⟩ : ∃ t, t = Max.max ((m.log2 : ℤ) + e - 52) (-1074) := ⟨_, rfl⟩
  rw [← target] at ready
  have h := Shifted.of_ready stands target ready
  have shifted := shiftToTargetExponent_eq accuracy target ready
  generalize ExtendedMantissa.ofMantissaAndAccuracy m accuracy >>> (t - e).toNat = em at h shifted
  obtain ⟨down, up⟩ := roundedMantissa_mem em
  have short := h.short
  rcases Nat.eq_zero_or_pos em.roundedMantissa with zero | pos
  · rw [roundWithAccuracy_of_zero shifted h.least s zero]
    have held : (Float.Model.pack (.zero s)).unpack = .zero s := by cases s <;> rfl
    rw [held]
    exact .zero (h.le_underflow zero)
  · rcases Nat.lt_or_ge em.roundedMantissa (2 ^ 53) with fits | carried
    · rw [roundWithAccuracy_of_short shifted h.least s pos fits]
      exact rounded_pack_canonical s ⟨fits, h.least, h.full.imp_left fun full => full.trans down⟩
        (h.mem_interval pos)
    · have carried : em.roundedMantissa = 2 ^ 53 := by omega
      have least := h.least
      rw [roundWithAccuracy_of_carried shifted least s carried]
      exact rounded_pack_canonical s (Positive.isCanonical_power (by omega))
        (h.mem_interval_of_carried carried)

end Number

end CabScript
