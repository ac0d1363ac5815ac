import CabScript.Proofs.NumberOrder
import CabScript.Proofs.ShortestDecimal
import CabScript.Proofs.WholeNumbers

/-!
# The values of doubles

A finite double has a rational number as its value. Comparisons of finite doubles are comparisons of
their values, though they are defined on signs, exponents and mantissas: of two doubles as binary64
holds them, the one with the greater exponent has the greater value, whatever the mantissas are.
Integers of at most 53 bits are values of doubles, so that their doubles compare as they do.

## Main definitions

* `Exact.value`, `Number.value?`: the value of a finite double.

## Main statements

* `Exact.value_mul_denominator`: the value is the fraction that is rounded to integers.
* `Number.value?_cases`: a finite double is a zero, or a double above zero with a sign.
* `Number.lt_iff_value_lt`: finite doubles compare as their values do.
* `Number.value?_ofInt`, `Number.ofInt_lt_ofInt_iff`: the doubles of integers of at most 53 bits.
-/

namespace CabScript

open Float.Model (UnpackedFloat)
open Float.Model.UnpackedFloat (Sign)

namespace Exact

/-- The value as a rational number. -/
def value (x : Exact) : ℚ :=
  x.mantissa * 2 ^ x.exponent

theorem denominator_pos (x : Exact) : 0 < x.denominator := by
  rw [denominator, Nat.shiftLeft_eq, Nat.one_mul]
  exact Nat.two_pow_pos _

/-- The value is a fraction of integers. -/
theorem value_mul_denominator (x : Exact) : x.value * x.denominator = x.numerator := by
  have power : (2 : ℚ) ^ x.exponent * (2 ^ (-x.exponent).toNat : ℕ) = (2 ^ x.exponent.toNat : ℕ) :=
    Positive.zpow_mul_pow_neg 2 two_pos x.exponent
  rw [value, denominator, numerator, Nat.shiftLeft_eq, Nat.one_mul, Int.shiftLeft_eq, mul_assoc,
    power]
  push_cast
  rfl

end Exact

namespace Positive

variable {x y : Positive}

/-- The value of a double above zero. -/
def value (x : Positive) : ℚ :=
  x.mantissa * 2 ^ x.exponent

theorem value_pos (x : Positive) : 0 < x.value :=
  mul_pos (by exact_mod_cast x.mantissa_pos) (zpow_pos two_pos _)

theorem value_eq_quarters (x : Positive) : x.value = (4 * x.mantissa : ℕ) * x.quarter := by
  rw [value, quarter, zpow_sub₀ two_ne_zero]
  push_cast
  ring

/-- The value is between the ends of the interval. -/
theorem value_mem_Ioo (x : Positive) :
    x.value ∈ Set.Ioo (x.lowerQuarters * x.quarter) (x.upperQuarters * x.quarter) := by
  have positive := x.mantissa_pos
  have lower : x.lowerQuarters < 4 * x.mantissa := by
    unfold lowerQuarters
    split <;> omega
  have upper : 4 * x.mantissa < x.upperQuarters := by
    unfold upperQuarters
    omega
  rw [value_eq_quarters]
  exact ⟨mul_lt_mul_of_pos_right (by exact_mod_cast lower) x.quarter_pos,
    mul_lt_mul_of_pos_right (by exact_mod_cast upper) x.quarter_pos⟩

/-- What comes first among doubles as they are held has the smaller value. -/
theorem Precedes.value_lt (hx : x.IsCanonical) (hy : y.IsCanonical) (less : x.Precedes y) :
    x.value < y.value := by
  have ends : x.upperQuarters * x.quarter ≤ y.lowerQuarters * y.quarter := by
    rcases less.upper_lower hx hy with apart | ⟨touch, -⟩
    · exact apart.le
    · exact touch.le
  exact (x.value_mem_Ioo.2.trans_le ends).trans y.value_mem_Ioo.1

end Positive

namespace Number

/-- The value of a finite double. -/
def value? (x : Float) : Option ℚ :=
  (Exact.ofFloat? x).map Exact.value

variable {x y : Float} {v w : ℚ}

/-- A double has a value if it is finite. -/
theorem isSome_value?_iff : (value? x).isSome = true ↔ x.isFinite = true := by
  show _ ↔ x.toModel.unpack.isFinite = true
  rw [value?, Option.isSome_map, Exact.ofFloat?]
  cases x.toModel.unpack <;> simp [UnpackedFloat.isFinite]

theorem isFinite_of_value? (hx : value? x = some v) : x.isFinite = true :=
  isSome_value?_iff.mp (Option.isSome_iff_exists.mpr ⟨v, hx⟩)

/-- A finite double is a zero, or it is a double above zero with a sign. -/
theorem value?_cases (hx : value? x = some v) :
    (∃ s, x.toModel.unpack = .zero s) ∧ v = 0 ∨
      ∃ p : Positive, p.IsCanonical ∧
        (x.toModel.unpack = .finite .positive p.mantissa p.exponent p.mantissa_pos ∧ v = p.value ∨
          x.toModel.unpack = .finite .negative p.mantissa p.exponent p.mantissa_pos ∧
            v = -p.value) := by
  unfold value? Exact.ofFloat? at hx
  split at hx
  · rename_i s held
    obtain rfl := Option.some.inj hx
    exact .inl ⟨⟨s, held⟩, by simp [Exact.value]⟩
  · rename_i s m e pos held
    obtain rfl := Option.some.inj hx
    refine .inr ⟨⟨m, e, pos⟩, isCanonical_of_unpack held, ?_⟩
    cases s
    · exact .inr ⟨held, by simp [Exact.value, Positive.value, Sign.apply]⟩
    · exact .inl ⟨held, rfl⟩
  · cases hx
  · cases hx

/-- What has a value is a number. -/
theorem isNaN_of_value? (hx : value? x = some v) : x.isNaN = false := by
  show x.toModel.unpack.isNaN = false
  rcases value?_cases hx with ⟨⟨s, held⟩, -⟩ | ⟨p, -, ⟨held, -⟩ | ⟨held, -⟩⟩ <;> rw [held] <;> rfl

/-! ## Comparisons are comparisons of values -/

/-- A place further on is the place of a greater value. -/
theorem value_lt_of_rank_lt (hx : value? x = some v) (hy : value? y = some w)
    (less : rank x.toModel.unpack < rank y.toModel.unpack) : v < w := by
  -- the cases in which the signs are in the wrong order are closed by `simp`
  rcases value?_cases hx with ⟨⟨s, held⟩, rfl⟩ | ⟨p, hp, ⟨held, rfl⟩ | ⟨held, rfl⟩⟩ <;>
    rcases value?_cases hy with ⟨⟨s', held'⟩, rfl⟩ | ⟨q, hq, ⟨held', rfl⟩ | ⟨held', rfl⟩⟩ <;>
    simp [held, held', rank, Prod.Lex.toLex_lt_toLex] at less
  case inl.inr.inl => exact q.value_pos
  case inr.inl.inr.inl =>
    exact Positive.Precedes.value_lt hp hq less
  case inr.inr.inl => exact neg_neg_of_pos p.value_pos
  case inr.inr.inr.inl => exact (neg_neg_of_pos p.value_pos).trans q.value_pos
  case inr.inr.inr.inr =>
    have reversed : q.Precedes p := by
      unfold Positive.Precedes
      omega
    exact neg_lt_neg (reversed.value_lt hq hp)

/-- Doubles at one place have one value. -/
theorem value_eq_of_rank_eq (hx : value? x = some v) (hy : value? y = some w)
    (same : rank x.toModel.unpack = rank y.toModel.unpack) : v = w := by
  rcases value?_cases hx with ⟨⟨s, held⟩, rfl⟩ | ⟨p, -, ⟨held, rfl⟩ | ⟨held, rfl⟩⟩ <;>
    rcases value?_cases hy with ⟨⟨s', held'⟩, rfl⟩ | ⟨q, -, ⟨held', rfl⟩ | ⟨held', rfl⟩⟩ <;>
    simp [held, held', rank] at same <;>
    simp [Positive.value, same]

/-- **Finite doubles compare as their values do.** -/
theorem lt_iff_value_lt (hx : value? x = some v) (hy : value? y = some w) : x < y ↔ v < w := by
  rw [lt_iff]
  constructor
  · rintro ⟨-, -, less⟩
    exact value_lt_of_rank_lt hx hy less
  · intro less
    refine ⟨isNaN_of_value? hx, isNaN_of_value? hy, ?_⟩
    rcases lt_trichotomy (rank x.toModel.unpack) (rank y.toModel.unpack) with lt | same | gt
    · exact lt
    · exact absurd (value_eq_of_rank_eq hx hy same) less.ne
    · exact absurd (value_lt_of_rank_lt hy hx gt) less.not_gt

theorem le_iff_value_le (hx : value? x = some v) (hy : value? y = some w) : x ≤ y ↔ v ≤ w := by
  rw [← not_lt_iff (isNaN_of_value? hy) (isNaN_of_value? hx), lt_iff_value_lt hy hx, not_lt]

theorem beq_iff_value_eq (hx : value? x = some v) (hy : value? y = some w) :
    (x == y) = true ↔ v = w := by
  rw [beq_iff]
  constructor
  · rintro ⟨-, -, same⟩
    exact value_eq_of_rank_eq hx hy same
  · rintro rfl
    refine ⟨isNaN_of_value? hx, isNaN_of_value? hy, ?_⟩
    rcases lt_trichotomy (rank x.toModel.unpack) (rank y.toModel.unpack) with less | same | greater
    · exact absurd rfl (value_lt_of_rank_lt hx hy less).ne
    · exact same
    · exact absurd rfl (value_lt_of_rank_lt hy hx greater).ne

/-! ## Doubles of integers -/

variable {n : ℕ} {i j : ℤ}

/-- The double of a number of at most 53 bits, with a sign, has the number with the sign as its
value. -/
theorem value?_ofSignedNat (s : Sign) (short : n < 2 ^ 53) :
    value? (ofSignedNat s n) = some ((s.apply n : ℤ) : ℚ) := by
  rcases Nat.eq_zero_or_pos n with rfl | pos
  · have exact : Exact.ofFloat? (ofSignedNat s 0) = some ⟨0, 0⟩ := by cases s <;> rfl
    cases s <;> simp [value?, exact, Exact.value, Sign.apply]
  · have bits : n.log2 < 53 := (Nat.log2_lt pos.ne').mpr short
    have full := filled_mem_fullMantissas pos short
    have held : (ofSignedNat s n).toModel.unpack =
        .finite s (n * 2 ^ (52 - n.log2)) ((n.log2 : ℤ) - 52) (pos_of_full full) := by
      show (Float.Model.pack (UnpackedFloat.round .binary64 s n 0)).unpack = _
      rw [round_binary64_of_lt s pos short, unpack_pack s full (by omega), if_pos (by omega)]
    have value : (n * 2 ^ (52 - n.log2) : ℕ) * (2 : ℚ) ^ ((n.log2 : ℤ) - 52) = n := by
      rw [Nat.cast_mul, Nat.cast_pow, ← zpow_natCast, mul_assoc, Nat.cast_ofNat,
        ← zpow_add₀ two_ne_zero, show ((52 - n.log2 : ℕ) : ℤ) + (n.log2 - 52) = 0 by omega,
        zpow_zero, mul_one]
    have exact : Exact.ofFloat? (ofSignedNat s n) =
        some ⟨s.apply (n * 2 ^ (52 - n.log2) : ℕ), (n.log2 : ℤ) - 52⟩ := by
      simp only [Exact.ofFloat?, held]
    rw [value?, exact, Option.map_some, Exact.value]
    cases s <;> simp only [Sign.apply, Int.cast_neg, Int.cast_natCast, neg_mul, value]

/-- The double of an integer is that of its absolute value, with its sign. -/
theorem ofInt_eq_ofSignedNat (i : ℤ) : ofInt i = ofSignedNat (signOf i) i.natAbs := by
  rcases eq_or_ne i 0 with rfl | nonzero
  · rfl
  · show Float.ofModel (.pack (UnpackedFloat.normalize .binary64 i 0 .positive)) = _
    rw [normalize_eq_round nonzero]
    rfl

/-- **The double of an integer of at most 53 bits** has the integer as its value. -/
theorem value?_ofInt (short : i.natAbs < 2 ^ 53) : value? (ofInt i) = some (i : ℚ) := by
  rw [ofInt_eq_ofSignedNat, value?_ofSignedNat _ short, signOf_apply_natAbs]

/-- Such doubles compare as the integers do. -/
theorem ofInt_lt_ofInt_iff (hi : i.natAbs < 2 ^ 53) (hj : j.natAbs < 2 ^ 53) :
    ofInt i < ofInt j ↔ i < j := by
  rw [lt_iff_value_lt (value?_ofInt hi) (value?_ofInt hj), Int.cast_lt]

theorem ofInt_le_ofInt_iff (hi : i.natAbs < 2 ^ 53) (hj : j.natAbs < 2 ^ 53) :
    ofInt i ≤ ofInt j ↔ i ≤ j := by
  rw [le_iff_value_le (value?_ofInt hi) (value?_ofInt hj), Int.cast_le]

/-- Different integers of at most 53 bits have different doubles. -/
theorem ofInt_inj (hi : i.natAbs < 2 ^ 53) (hj : j.natAbs < 2 ^ 53) :
    ofInt i = ofInt j ↔ i = j := by
  refine ⟨fun same => ?_, congrArg ofInt⟩
  have values := (value?_ofInt hi).symm.trans ((congrArg value? same).trans (value?_ofInt hj))
  exact_mod_cast Option.some.inj values

end Number

end CabScript
