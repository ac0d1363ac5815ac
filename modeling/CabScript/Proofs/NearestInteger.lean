import CabScript.Proofs.ExactValue

/-!
# The integer nearest to a double

A double is rounded to the integer nearest to its value, and to the even one if two are equally
near. This can be done in one step on the value, or in two: to a double, and from there to a word of
64 bits that ends at the ends of its range. The first of the two steps loses nothing. Where a double
has a fraction, its value is below the integers of 53 bits, and so is the nearest integer.

## Main definitions

* `IsHalfEven`: the integer that a number is rounded to.
* `Number.RoundsTo`: the integer that a double is rounded to.

## Main statements

* `IsHalfEven.unique`, `Exact.isHalfEven_halfEven`: there is one such integer, and it is computed.
* `Number.nearestInt?_eq_some_iff`, `Number.existsUnique_roundsTo`: the same of finite doubles.
* `Number.value?_round`: the double that is rounded has the integer as its value.
* `Number.toInt64_of_value?`, `Number.toUInt64_of_value?`: from there to words.
* `Number.nearestInt?_ofNat`, `Number.le_of_nearestInt?_ofNat`: the integer nearest to the double of
  a whole number.
-/

namespace CabScript

open Float.Model (UnpackedFloat)
open Float.Model.UnpackedFloat

/-! ## Rounding of numbers -/

/-- The integer is nearest to the number, and it is even if there is another one as near. -/
structure IsHalfEven (v : ℚ) (r : ℤ) : Prop where
  near : |v - r| ≤ 1 / 2
  tie : |v - r| = 1 / 2 → Even r

namespace IsHalfEven

variable {v : ℚ} {r r' : ℤ}

/-- Not both of two integers next to each other: the number would be halfway between them, and
both would be even. -/
theorem not_next (h : IsHalfEven v r) : ¬ IsHalfEven v (r + 1) := by
  intro h'
  have low := (abs_le.mp h'.near).1
  have high := (abs_le.mp h.near).2
  push_cast at low
  have above : v - r = 1 / 2 := by linarith
  have below : v - (r + 1 : ℤ) = -(1 / 2) := by
    push_cast
    linarith
  have even : Even r := h.tie (by rw [above, abs_of_pos one_half_pos])
  have even' : Even (r + 1) := h'.tie (by rw [below, abs_neg, abs_of_pos one_half_pos])
  exact Int.even_add_one.mp even' even

/-- **There is no other such integer.** -/
theorem unique (h : IsHalfEven v r) (h' : IsHalfEven v r') : r = r' := by
  obtain ⟨low, high⟩ := abs_le.mp h.near
  obtain ⟨low', high'⟩ := abs_le.mp h'.near
  have le : r ≤ r' + 1 := by exact_mod_cast (show (r : ℚ) ≤ r' + 1 by linarith)
  have ge : r' ≤ r + 1 := by exact_mod_cast (show (r' : ℚ) ≤ r + 1 by linarith)
  rcases lt_trichotomy r r' with lt | same | gt
  · obtain rfl : r' = r + 1 := by omega
    exact absurd h' h.not_next
  · exact same
  · obtain rfl : r = r' + 1 := by omega
    exact absurd h h'.not_next

/-- An integer is rounded to itself. -/
theorem intCast (i : ℤ) : IsHalfEven i i := by
  constructor <;> norm_num

/-- What is at most half a unit from zero is rounded to zero, which is even. -/
theorem zero (near : |v| ≤ 1 / 2) : IsHalfEven v 0 :=
  ⟨by simpa using near, fun _ => Even.zero⟩

theorem nonneg (h : IsHalfEven v r) (pos : 0 ≤ v) : 0 ≤ r := by
  have high := (abs_le.mp h.near).2
  have : (-1 : ℚ) < r := by linarith
  have : -1 < r := by exact_mod_cast this
  omega

/-- Rounding moves a number by less than a unit. -/
theorem natAbs_le (h : IsHalfEven v r) {bound : ℕ} (small : |v| < bound) : r.natAbs ≤ bound := by
  have moved : |(r : ℚ)| ≤ |v| + |v - r| := by
    have := abs_sub_abs_le_abs_sub (r : ℚ) v
    rw [abs_sub_comm] at this
    linarith
  have near := h.near
  have less : ((|r| : ℤ) : ℚ) < (bound + 1 : ℕ) := by
    push_cast
    linarith
  have : |r| < (bound + 1 : ℕ) := by exact_mod_cast less
  rw [← Int.natCast_natAbs] at this
  omega

theorem nonpos (h : IsHalfEven v r) (neg : v ≤ 0) : r ≤ 0 := by
  have low := (abs_le.mp h.near).1
  have : (r : ℚ) < 1 := by linarith
  have : r < 1 := by exact_mod_cast this
  omega

end IsHalfEven

namespace Exact

/-- The distance from an integer, in halves of the unit of the fraction. -/
theorem isHalfEven_iff (x : Exact) (r : ℤ) :
    IsHalfEven x.value r ↔
      |2 * (x.numerator - r * x.denominator)| ≤ x.denominator ∧
        (|2 * (x.numerator - r * x.denominator)| = x.denominator → Even r) := by
  have unit : (0 : ℚ) < x.denominator := by exact_mod_cast x.denominator_pos
  have scaled : ((|2 * (x.numerator - r * x.denominator)| : ℤ) : ℚ) =
      |x.value - r| * (2 * x.denominator) := by
    rw [← abs_of_pos (mul_pos two_pos unit), ← abs_mul, Int.cast_abs]
    push_cast
    rw [← x.value_mul_denominator]
    ring_nf
  have near : |x.value - r| ≤ 1 / 2 ↔
      |2 * (x.numerator - r * x.denominator)| ≤ (x.denominator : ℤ) := by
    rw [← Int.cast_le (R := ℚ), scaled, Int.cast_natCast]
    constructor <;> intro h <;> nlinarith
  have tie : |x.value - r| = 1 / 2 ↔
      |2 * (x.numerator - r * x.denominator)| = (x.denominator : ℤ) := by
    rw [← Int.cast_inj (α := ℚ), scaled, Int.cast_natCast]
    constructor <;> intro h
    · rw [h]
      ring
    · nlinarith
  rw [← near, ← tie]
  exact ⟨fun h => ⟨h.near, h.tie⟩, fun h => ⟨h.1, h.2⟩⟩

/-- The numerator is between the multiples of the denominator by the floor and by the next
integer. -/
theorem floor_mul_denominator (x : Exact) :
    x.floor * x.denominator ≤ x.numerator ∧
      x.numerator < x.floor * x.denominator + x.denominator := by
  have positive : 0 < (x.denominator : ℤ) := by exact_mod_cast x.denominator_pos
  rw [floor, Int.fdiv_eq_ediv_of_nonneg _ positive.le]
  have below := Int.lt_ediv_add_one_mul_self x.numerator positive
  rw [add_mul, one_mul] at below
  exact ⟨Int.ediv_mul_le _ positive.ne', below⟩

/-- **Rounding by a division** gives the nearest integer, and the even one if two are as near. -/
theorem isHalfEven_halfEven (x : Exact) : IsHalfEven x.value x.halfEven := by
  obtain ⟨low, high⟩ := x.floor_mul_denominator
  have next : (x.floor + 1) * (x.denominator : ℤ) = x.floor * x.denominator + x.denominator := by
    ring
  rw [isHalfEven_iff, Int.even_iff, abs_le, abs_eq (Int.natCast_nonneg _), halfEven]
  split_ifs <;> omega

end Exact

/-! ## Rounding of doubles -/

namespace Number

/-- The integer that a double is rounded to. -/
def RoundsTo (x : Float) (r : ℤ) : Prop :=
  ∃ v, value? x = some v ∧ IsHalfEven v r

variable {x : Float} {v : ℚ} {r i : ℤ}

/-- A double has the integer as its nearest one if it is rounded to it. -/
theorem nearestInt?_eq_some_iff : nearestInt? x = some r ↔ RoundsTo x r := by
  unfold nearestInt? RoundsTo value?
  constructor
  · intro nearest
    obtain ⟨exact, held, rfl⟩ := Option.map_eq_some_iff.mp nearest
    exact ⟨exact.value, by rw [held, Option.map_some], exact.isHalfEven_halfEven⟩
  · rintro ⟨v, value, rounded⟩
    obtain ⟨exact, held, rfl⟩ := Option.map_eq_some_iff.mp value
    rw [held, Option.map_some, exact.isHalfEven_halfEven.unique rounded]

/-- **A finite double is rounded to one integer.** -/
theorem existsUnique_roundsTo (finite : x.isFinite = true) : ∃! r, RoundsTo x r := by
  obtain ⟨v, value⟩ := Option.isSome_iff_exists.mp (isSome_value?_iff.mpr finite)
  obtain ⟨exact, held, rfl⟩ := Option.map_eq_some_iff.mp value
  refine ⟨exact.halfEven, ⟨_, value, exact.isHalfEven_halfEven⟩, ?_⟩
  rintro r ⟨w, value', rounded⟩
  obtain rfl := Option.some.inj (value.symm.trans value')
  exact rounded.unique exact.isHalfEven_halfEven

/-- A double that is not finite has no nearest integer. -/
theorem nearestInt?_of_not_finite (infinite : x.isFinite = false) : nearestInt? x = none := by
  rw [Option.eq_none_iff_forall_ne_some]
  intro r nearest
  obtain ⟨v, value, -⟩ := nearestInt?_eq_some_iff.mp nearest
  have finite := isSome_value?_iff.mp (Option.isSome_iff_exists.mpr ⟨v, value⟩)
  rw [infinite] at finite
  cases finite

end Number

/-! ## Rounding to a double -/

namespace Positive

variable {p : Positive}

/-- Where the exponent is not negative, the value is integral. -/
theorem exists_value_eq (integral : 0 ≤ p.exponent) : ∃ k : ℕ, p.value = k := by
  refine ⟨p.mantissa * 2 ^ p.exponent.toNat, ?_⟩
  rw [value, ← Int.toNat_of_nonneg integral, zpow_natCast, Int.toNat_natCast]
  push_cast
  rfl

/-- Where it is negative, so that there may be a fraction, the value is below `2 ^ 52`. -/
theorem value_lt_of_exponent_neg (hp : p.IsCanonical) (fraction : p.exponent < 0) :
    p.value < (2 ^ 52 : ℕ) := by
  have short : (p.mantissa : ℚ) < 2 ^ 53 := by exact_mod_cast hp.short
  calc p.value ≤ p.mantissa * 2 ^ (-1 : ℤ) := by
        refine mul_le_mul_of_nonneg_left ?_ (Nat.cast_nonneg _)
        exact zpow_le_zpow_right₀ one_le_two (by omega)
    _ < 2 ^ 53 * 2 ^ (-1 : ℤ) := mul_lt_mul_of_pos_right short (by norm_num)
    _ = (2 ^ 52 : ℕ) := by norm_num

/-- The integral value is what is left of the mantissa when it is shifted by the exponent. -/
theorem shifted_mantissa {k : ℕ} (integral : p.value = k) :
    p.mantissa * 2 ^ p.exponent.toNat / 2 ^ (-p.exponent).toNat = k := by
  have power : (2 : ℚ) ^ p.exponent * (2 ^ (-p.exponent).toNat : ℕ) = (2 ^ p.exponent.toNat : ℕ) :=
    zpow_mul_pow_neg 2 two_pos p.exponent
  have shifted : p.mantissa * 2 ^ p.exponent.toNat = k * 2 ^ (-p.exponent).toNat := by
    have : (p.mantissa * (2 ^ p.exponent.toNat : ℕ) : ℚ) = k * (2 ^ (-p.exponent).toNat : ℕ) := by
      rw [← integral, value, mul_assoc, power]
    exact_mod_cast this
  rw [shifted, Nat.mul_div_cancel _ (Nat.two_pow_pos _)]

end Positive

namespace Number

variable {x : Float} {v : ℚ} {r i : ℤ}

section Finite

variable {s : Sign} {p : Positive}
  (held : x.toModel.unpack = .finite s p.mantissa p.exponent p.mantissa_pos)

include held

theorem round_of_integral (integral : 0 ≤ p.exponent) : round x = x := by
  rw [round, toIntegral, held]
  exact if_pos integral

theorem round_of_fraction (fraction : p.exponent < 0) (rounded : RoundsTo x r) :
    round x = ofSignedNat s r.natAbs := by
  have nearest := nearestInt?_eq_some_iff.mpr rounded
  simp only [nearestInt?, Exact.ofFloat?, held, Option.map_some, Option.some.injEq] at nearest
  simp only [round, toIntegral, held, nearest, fraction.not_ge, if_false]

/-- Rounding a double with a fraction loses nothing, if it keeps the sign. -/
theorem value?_round_of_fraction (hp : p.IsCanonical) (fraction : p.exponent < 0)
    (value : value? x = some v) (size : |v| = p.value) (rounded : IsHalfEven v r)
    (signed : s.apply r.natAbs = r) : value? (round x) = some (r : ℚ) := by
  have small : r.natAbs ≤ 2 ^ 52 :=
    rounded.natAbs_le (size ▸ Positive.value_lt_of_exponent_neg hp fraction)
  rw [round_of_fraction held fraction ⟨v, value, rounded⟩, value?_ofSignedNat s (by omega), signed]

end Finite

/-- **Rounding to a double loses nothing:** the double has the nearest integer as its value. -/
theorem value?_round (h : RoundsTo x r) : value? (round x) = some (r : ℚ) := by
  obtain ⟨v, value, rounded⟩ := h
  rcases value?_cases value with ⟨⟨s, held⟩, rfl⟩ | ⟨p, hp, ⟨held, rfl⟩ | ⟨held, rfl⟩⟩
  · have kept : round x = x := by
      rw [round, toIntegral, held]
    obtain rfl : 0 = r := (IsHalfEven.zero (by norm_num)).unique rounded
    rw [kept, value, Int.cast_zero]
  · rcases le_or_gt 0 p.exponent with integral | fraction
    · obtain ⟨k, hk⟩ := Positive.exists_value_eq integral
      rw [hk] at value rounded
      obtain rfl : (k : ℤ) = r := (IsHalfEven.intCast k).unique rounded
      rw [round_of_integral held integral, value]
      rfl
    · refine value?_round_of_fraction held hp fraction value (abs_of_pos p.value_pos) rounded ?_
      exact Int.natAbs_of_nonneg (rounded.nonneg p.value_pos.le)
  · have below : -p.value < 0 := neg_neg_of_pos p.value_pos
    rcases le_or_gt 0 p.exponent with integral | fraction
    · obtain ⟨k, hk⟩ := Positive.exists_value_eq integral
      rw [hk] at value rounded
      obtain rfl : -(k : ℤ) = r := by
        refine (IsHalfEven.intCast (-k)).unique ?_
        rwa [Int.cast_neg]
      rw [round_of_integral held integral, value]
      push_cast
      rfl
    · refine value?_round_of_fraction held hp fraction value ?_ rounded ?_
      · rw [abs_neg, abs_of_pos p.value_pos]
      · have neg := rounded.nonpos below.le
        show -(r.natAbs : ℤ) = r
        omega

/-! ## From a double to a word -/

/-- The part of a double in front of its fraction, by shifts. -/
theorem roundToInt_eq (s : Sign) (m : ℕ) (e : ℤ) :
    roundToInt s m e = s.apply (m * 2 ^ e.toNat / 2 ^ (-e).toNat : ℕ) := by
  have up : (e - 0).toNat = e.toNat := by omega
  have down : (0 - (e - (e.toNat : ℤ))).toNat = (-e).toNat := by omega
  simp only [roundToInt, decreaseExponent, shiftToExponent, mantissa_shiftRight, up, down,
    Nat.shiftLeft_eq]
  rfl

/-- A double with an integral value is this integer, whatever stands for the infinities. -/
theorem toInt_of_value? (value : value? x = some (i : ℚ)) (least greatest : ℤ) :
    x.toModel.unpack.toInt least greatest = i := by
  rcases value?_cases value with ⟨⟨s, held⟩, zero⟩ | ⟨p, -, ⟨held, size⟩ | ⟨held, size⟩⟩
  · rw [held]
    exact_mod_cast zero.symm
  · have pos : (0 : ℚ) < i := size ▸ p.value_pos
    obtain ⟨k, rfl⟩ := Int.eq_ofNat_of_zero_le (show 0 ≤ i by exact_mod_cast pos.le)
    have integral : p.value = k := by exact_mod_cast size.symm
    rw [held, toInt, roundToInt_eq, Positive.shifted_mantissa integral]
    rfl
  · have pos : (0 : ℚ) < -i := by
      rw [size, neg_neg]
      exact p.value_pos
    obtain ⟨k, hk⟩ := Int.eq_ofNat_of_zero_le (show 0 ≤ -i by exact_mod_cast pos.le)
    have integral : p.value = k := by
      rw [← neg_neg p.value, ← size]
      exact_mod_cast hk
    rw [held, toInt, roundToInt_eq, Positive.shifted_mantissa integral]
    show -(k : ℤ) = i
    omega

/-- **As a signed word** such a double ends at the ends of the range. -/
theorem toInt64_of_value? (value : value? x = some (i : ℚ)) :
    x.toModel.toInt64.toInt = Max.max (-2 ^ 63) (Min.min (2 ^ 63 - 1) i) := by
  have least : Int64.minValue.toInt = -2 ^ 63 := rfl
  have greatest : Int64.maxValue.toInt = 2 ^ 63 - 1 := rfl
  show (Int64.ofIntClamp (x.toModel.unpack.toInt _ _)).toInt = _
  rw [toInt_of_value? value, Int64.ofIntClamp]
  split_ifs with low high
  · rw [Int64.toInt_ofIntLE]
    omega
  · omega
  · omega

/-- **As an unsigned word** it ends at the greatest one, and starts at zero. -/
theorem toUInt64_of_value? (value : value? x = some (i : ℚ)) :
    x.toModel.toUInt64.toNat = Min.min (2 ^ 64 - 1) i.toNat := by
  show (UInt64.ofNatClamp (x.toModel.unpack.toInt _ _).toNat).toNat = _
  rw [toInt_of_value? value, UInt64.ofNatClamp]
  split_ifs with small
  · have : i.toNat < 2 ^ 64 := small
    rw [UInt64.toNat_ofNatLT]
    omega
  · have : ¬ i.toNat < 2 ^ 64 := small
    rw [UInt64.toNat_ofNatLT]
    show 2 ^ 64 - 1 = _
    omega

/-! ## Doubles of whole numbers -/

section WholeNumbers

variable {n : ℕ}

/-- **The double of a number of at most 53 bits** is nearest to the number. -/
theorem nearestInt?_ofNat (short : n < 2 ^ 53) : nearestInt? (ofNat n) = some (n : ℤ) :=
  nearestInt?_eq_some_iff.mpr ⟨(n : ℤ), value?_ofInt short, .intCast n⟩

/-- **The double of a greater number** is not below the numbers of 53 bits. -/
theorem le_of_nearestInt?_ofNat (large : 2 ^ 53 ≤ n) (nearest : nearestInt? (ofNat n) = some i) :
    2 ^ 53 ≤ i := by
  obtain ⟨v, value, near⟩ := nearestInt?_eq_some_iff.mp nearest
  obtain ⟨m, e, pos, rounded, full, le⟩ := round_binary64_of_le .positive large
  have held := unpack_ofNat (show 0 < n by omega)
  rw [rounded, unpack_pack .positive full (by omega)] at held
  rcases value?_cases value with ⟨⟨s, zero⟩, -⟩ | ⟨p, -, ⟨finite, rfl⟩ | ⟨finite, -⟩⟩
  · rw [held] at zero
    split_ifs at zero
  · rw [held] at finite
    split_ifs at finite
    obtain ⟨-, rfl, rfl⟩ := UnpackedFloat.finite.inj finite
    obtain ⟨k, integral⟩ := Positive.exists_value_eq (p := p) (by omega)
    have greater : (2 ^ 53 : ℚ) ≤ p.value := by
      calc (2 ^ 53 : ℚ) = (2 ^ 52 : ℕ) * 2 ^ (1 : ℤ) := by norm_num
        _ ≤ p.mantissa * 2 ^ p.exponent :=
          mul_le_mul (by exact_mod_cast full.1) (zpow_le_zpow_right₀ one_le_two le) (by positivity)
            (by positivity)
    rw [integral] at near greater
    obtain rfl : (k : ℤ) = i := (IsHalfEven.intCast k).unique near
    exact_mod_cast greater
  · rw [held] at finite
    split_ifs at finite
    cases finite

end WholeNumbers

end Number

end CabScript
