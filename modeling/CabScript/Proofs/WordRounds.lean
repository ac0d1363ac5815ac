import CabScript.Arithmetic.Random
import Mathlib

/-!
# One round of a draw

A draw among `range` integers takes one word at a time. The product of the word and `range` has the
outcome in its upper half, and the word is kept if the lower half is below
`range * 2 ^ leadingZeros range`. So the products that are kept for an outcome lie in a window of
this length, which starts at the outcome's multiple of `2 ^ 32`. The products are the multiples of
`range`, and `2 ^ leadingZeros range` of them lie in such a window, wherever it starts.

In machine words the range is a difference of signed words. The difference wraps if it is beyond the
greatest signed word, and it is the number of integers nevertheless if it is read without a sign.

## Main definitions

* `Number.width`, `Number.drawn?`: the number of integers, and one round, in machine words.

## Main statements

* `Number.ncard_words`, `Number.ncard_kept`: how many words are kept, for an outcome and in all.
* `Number.drawn?_eq_some_iff`: the round in machine words is the one in natural numbers.
* `Number.ncard_drawn?`, `Number.two_mul_ncard_thrown_le`: each integer has equally many words, and
  at most half of all words are thrown away.
-/

namespace CabScript

namespace Number

variable {range k : ℕ} {word : UInt32}

/-! ## Words and their outcomes -/

/-- Without its leading zeros a range fills 32 bits. -/
theorem mul_leadingZeros_mem (pos : 0 < range) (short : range < 2 ^ 32) :
    range * 2 ^ leadingZeros range ∈ Set.Ico (2 ^ 31) (2 ^ 32) := by
  have filled : range.log2 + leadingZeros range = 31 := by
    have : range.log2 < 32 := (Nat.log2_lt pos.ne').mpr short
    unfold leadingZeros
    omega
  constructor
  · calc 2 ^ 31 = 2 ^ range.log2 * 2 ^ leadingZeros range := by rw [← pow_add, filled]
      _ ≤ range * 2 ^ leadingZeros range := Nat.mul_le_mul_right _ (Nat.log2_self_le pos.ne')
  · calc range * 2 ^ leadingZeros range < 2 ^ (range.log2 + 1) * 2 ^ leadingZeros range :=
          Nat.mul_lt_mul_of_pos_right Nat.lt_log2_self (Nat.two_pow_pos _)
      _ = 2 ^ 32 := by rw [← pow_add, add_right_comm, filled]

theorem outcome_lt (pos : 0 < range) (word : UInt32) : outcome range word < range :=
  Nat.div_lt_of_lt_mul (Nat.mul_lt_mul_of_pos_right word.toNat_lt pos)

/-- The words that are kept for an outcome: their products lie in a window that starts at the
outcome's multiple of `2 ^ 32`. -/
theorem keepsWord_and_outcome_eq_iff (pos : 0 < range) (short : range < 2 ^ 32) :
    keepsWord range word = true ∧ outcome range word = k ↔
      word.toNat * range ∈ Set.Ico (k * 2 ^ 32) (k * 2 ^ 32 + range * 2 ^ leadingZeros range) := by
  have window := (mul_leadingZeros_mem pos short).2
  rw [keepsWord, decide_eq_true_eq, outcome, Nat.shiftLeft_eq, Set.mem_Ico]
  show word.toNat * range % 2 ^ 32 < _ ∧ word.toNat * range / 2 ^ 32 = k ↔ _
  omega

/-- A window as long as `count` multiples holds as many of them, wherever it starts. -/
theorem ncard_multiples (pos : 0 < range) (start count : ℕ) :
    {n : ℕ | n * range ∈ Set.Ico start (start + range * count)}.ncard = count := by
  have le_iff (bound n : ℕ) : bound ≤ n * range ↔ bound ⌈/⌉ range ≤ n := by
    rw [ceilDiv_le_iff_le_smul pos, smul_eq_mul, mul_comm]
  have end_eq : (start + range * count) ⌈/⌉ range = start ⌈/⌉ range + count := by
    rw [Nat.ceilDiv_eq_add_pred_div, Nat.ceilDiv_eq_add_pred_div, ← Nat.add_mul_div_left _ _ pos]
    congr 1
    omega
  have window : {n : ℕ | n * range ∈ Set.Ico start (start + range * count)} =
      Set.Ico (start ⌈/⌉ range) (start ⌈/⌉ range + count) := by
    ext n
    rw [Set.mem_ofPred_eq, Set.mem_Ico, Set.mem_Ico, le_iff, ← not_le, le_iff, end_eq, not_le]
  rw [window, Set.ncard_Ico_nat, Nat.add_sub_cancel_left]

/-- **Every outcome has equally many words** that are kept for it. -/
theorem ncard_words (pos : 0 < range) (short : range < 2 ^ 32) (below : k < range) :
    {word : UInt32 | keepsWord range word = true ∧ outcome range word = k}.ncard =
      2 ^ leadingZeros range := by
  have numbers : UInt32.toNat '' {word | keepsWord range word = true ∧ outcome range word = k} =
      {n | n * range ∈ Set.Ico (k * 2 ^ 32) (k * 2 ^ 32 + range * 2 ^ leadingZeros range)} := by
    ext n
    constructor
    · rintro ⟨word, kept, rfl⟩
      exact (keepsWord_and_outcome_eq_iff pos short).mp kept
    · intro inWindow
      have fits : n < 2 ^ 32 := by
        -- not even the window of the greatest outcome goes beyond the product of the greatest word
        have window := (mul_leadingZeros_mem pos short).2
        apply Nat.lt_of_mul_lt_mul_right (a := range)
        calc n * range < k * 2 ^ 32 + range * 2 ^ leadingZeros range := inWindow.2
          _ ≤ (k + 1) * 2 ^ 32 := by omega
          _ ≤ 2 ^ 32 * range := by
            rw [mul_comm]
            exact Nat.mul_le_mul_left _ below
      exact ⟨UInt32.ofNatLT n fits, (keepsWord_and_outcome_eq_iff pos short).mpr inWindow, rfl⟩
  rw [← Set.ncard_image_of_injective _ fun _ _ => UInt32.toNat_inj.mp, numbers, ncard_multiples pos]

/-- So many words are kept in all. -/
theorem ncard_kept (pos : 0 < range) (short : range < 2 ^ 32) :
    {word : UInt32 | keepsWord range word = true}.ncard = range * 2 ^ leadingZeros range := by
  have finite : {word : UInt32 | keepsWord range word = true}.Finite := Set.toFinite _
  have outcomes : ∀ word ∈ finite.toFinset, outcome range word ∈ Finset.range range :=
    fun word _ => Finset.mem_range.mpr (outcome_lt pos word)
  have share : ∀ k ∈ Finset.range range,
      (finite.toFinset.filter (outcome range · = k)).card = 2 ^ leadingZeros range := by
    intro k below
    rw [← ncard_words pos short (Finset.mem_range.mp below), ← Set.ncard_coe_finset]
    congr 1
    ext word
    rw [Finset.mem_coe, Finset.mem_filter, Set.Finite.mem_toFinset]
    rfl
  rw [Set.ncard_eq_toFinset_card _ finite, Finset.card_eq_sum_card_fiberwise outcomes,
    Finset.sum_congr rfl share, Finset.sum_const, Finset.card_range, smul_eq_mul]

theorem card_words : Nat.card UInt32 = 2 ^ 32 :=
  (Nat.card_congr ⟨UInt32.toFin, UInt32.ofFin, fun _ => rfl, fun _ => rfl⟩).trans (Nat.card_fin _)

/-! ## Draws in machine words -/

section MachineWords

variable {first last i : Int32} {word : UInt32}

/-- How many integers there are from `first` on and below `last`, as a word: the difference wraps
where it is beyond the signed ones. -/
def width (first last : Int32) : UInt32 :=
  (last - first).toUInt32

/-- The integer from `first` on and below `last` that a word stands for, `none` if the word is
thrown away: one round of the draw, in machine words throughout. -/
def drawn? (first last : Int32) (word : UInt32) : Option Int32 :=
  let range := width first last
  let zone := range <<< UInt32.ofBitVec range.toBitVec.clz - 1
  let product := word.toUInt64 * range.toUInt64
  if product.toUInt32 ≤ zone then some (first + (product >>> 32).toUInt32.toInt32) else none

/-- A signed word is its bits as a number, or that number less `2 ^ 32`. -/
theorem toInt_eq (i : Int32) :
    i.toInt = i.toUInt32.toNat - if i.toUInt32.toNat < 2 ^ 31 then 0 else 2 ^ 32 := by
  show i.toBitVec.toInt = i.toBitVec.toNat - if i.toBitVec.toNat < 2 ^ 31 then 0 else 2 ^ 32
  rw [BitVec.toInt_eq_toNat_cond]
  split_ifs <;> omega

/-- **The difference that wraps** is the number of integers nevertheless. -/
theorem toNat_width (less : first < last) :
    ((width first last).toNat : ℤ) = last.toInt - first.toInt := by
  have less := Int32.lt_iff_toInt_lt.mp less
  have hfirst := first.toUInt32.toNat_lt
  have hlast := last.toUInt32.toNat_lt
  rw [toInt_eq first, toInt_eq last] at less ⊢
  rw [width, Int32.toUInt32_sub, UInt32.toNat_sub]
  split_ifs at less ⊢ <;> omega

theorem width_pos (less : first < last) : 0 < (width first last).toNat := by
  have count := toNat_width less
  have less := Int32.lt_iff_toInt_lt.mp less
  omega

theorem toInt_add_of_lt (fits : first.toInt + word.toNat < 2 ^ 31) :
    (first + word.toInt32).toInt = first.toInt + word.toNat := by
  have hfirst := first.toUInt32.toNat_lt
  have hword := word.toNat_lt
  rw [toInt_eq first] at fits ⊢
  rw [toInt_eq, Int32.toUInt32_add, UInt32.toUInt32_toInt32, UInt32.toNat_add]
  split_ifs at fits ⊢ <;> omega

theorem toNat_clz (pos : 0 < word.toNat) :
    (UInt32.ofBitVec word.toBitVec.clz).toNat = leadingZeros word.toNat := by
  rw [UInt32.toNat_ofBitVec]
  have nonzero : word.toBitVec ≠ 0#32 := by
    intro zero
    have : word.toNat = 0 := congrArg BitVec.toNat zero
    omega
  have few : word.toBitVec.clz.toNat < 32 := BitVec.clz_lt_iff_ne_zero.mpr nonzero
  have low := BitVec.two_pow_sub_clz_le_toNat_of_ne_zero (by norm_num) nonzero
  have high := BitVec.toNat_lt_two_pow_sub_clz (x := word.toBitVec)
  have log : word.toNat.log2 = 31 - word.toBitVec.clz.toNat := by
    refine (Nat.log2_eq_iff pos.ne').mpr ⟨low, ?_⟩
    rwa [show 31 - word.toBitVec.clz.toNat + 1 = 32 - word.toBitVec.clz.toNat by omega]
  rw [leadingZeros, log]
  omega

theorem toNat_zone (pos : 0 < word.toNat) :
    (word <<< UInt32.ofBitVec word.toBitVec.clz - 1).toNat =
      word.toNat * 2 ^ leadingZeros word.toNat - 1 := by
  have filled := mul_leadingZeros_mem pos word.toNat_lt
  have few : leadingZeros word.toNat < 32 := by
    unfold leadingZeros
    omega
  have shifted : (word <<< UInt32.ofBitVec word.toBitVec.clz).toNat =
      word.toNat * 2 ^ leadingZeros word.toNat := by
    rw [UInt32.toNat_shiftLeft, toNat_clz pos, Nat.mod_eq_of_lt few, Nat.shiftLeft_eq,
      Nat.mod_eq_of_lt filled.2]
  rw [UInt32.toNat_sub_of_le, shifted]
  · rfl
  · rw [UInt32.le_iff_toNat_le, shifted]
    exact (Nat.one_le_two_pow (n := 31)).trans filled.1

theorem toNat_product (word range : UInt32) :
    (word.toUInt64 * range.toUInt64).toNat = word.toNat * range.toNat := by
  have fits : word.toNat * range.toNat < 2 ^ 32 * 2 ^ 32 :=
    Nat.mul_lt_mul'' word.toNat_lt range.toNat_lt
  rw [UInt64.toNat_mul, UInt32.toNat_toUInt64, UInt32.toNat_toUInt64]
  exact Nat.mod_eq_of_lt fits

/-- The lower half of the product decides whether a word is kept, -/
theorem lower_le_zone_iff {range : UInt32} (pos : 0 < range.toNat) :
    (word.toUInt64 * range.toUInt64).toUInt32 ≤ range <<< UInt32.ofBitVec range.toBitVec.clz - 1 ↔
      keepsWord range.toNat word = true := by
  have filled := (mul_leadingZeros_mem pos range.toNat_lt).1
  rw [UInt32.le_iff_toNat_le, UInt64.toNat_toUInt32, toNat_product, toNat_zone pos, keepsWord,
    decide_eq_true_eq, Nat.shiftLeft_eq]
  show _ ↔ word.toNat * range.toNat % 2 ^ 32 < _
  omega

/-- and the upper half is the outcome. -/
theorem toNat_upper {range : UInt32} (pos : 0 < range.toNat) :
    ((word.toUInt64 * range.toUInt64) >>> 32).toUInt32.toNat = outcome range.toNat word := by
  rw [UInt64.toNat_toUInt32, UInt64.toNat_shiftRight, toNat_product]
  show (word.toNat * range.toNat) >>> 32 % 2 ^ 32 = _
  rw [Nat.shiftRight_eq_div_pow]
  exact Nat.mod_eq_of_lt ((outcome_lt pos word).trans range.toNat_lt)

/-- **A round in machine words** keeps the words that are to be kept, and adds the outcome to the
first integer without an overflow. -/
theorem drawn?_eq_some_iff (less : first < last) :
    drawn? first last word = some i ↔
      keepsWord (width first last).toNat word = true ∧
        i.toInt = first.toInt + outcome (width first last).toNat word := by
  have count := toNat_width less
  have pos := width_pos less
  have sum : (first + ((word.toUInt64 * (width first last).toUInt64) >>> 32).toUInt32.toInt32).toInt
      = first.toInt + outcome (width first last).toNat word := by
    have below := outcome_lt pos word
    have last_lt := last.toInt_lt
    rw [toInt_add_of_lt, toNat_upper pos]
    rw [toNat_upper pos]
    omega
  rw [drawn?, ← sum, Int32.toInt_inj, eq_comm (a := i), ← lower_le_zone_iff pos]
  split_ifs with keeps
  · simp only [keeps, true_and, Option.some.injEq]
  · simp only [keeps, false_and]

/-- Whether a word is thrown away does not depend on where the integers start. -/
theorem drawn?_eq_none_iff (less : first < last) :
    drawn? first last word = none ↔ keepsWord (width first last).toNat word = false := by
  rw [drawn?, ← Bool.not_eq_true, ← lower_le_zone_iff (width_pos less)]
  split_ifs with keeps
  · simp only [keeps, not_true_eq_false]
  · simp only [keeps, not_false_eq_true]

/-- **The integers that are drawn** are those from `first` on and below `last`. -/
theorem mem_of_drawn? (less : first < last) (drawn : drawn? first last word = some i) :
    first ≤ i ∧ i < last := by
  have count := toNat_width less
  have below := outcome_lt (width_pos less) word
  obtain ⟨-, sum⟩ := (drawn?_eq_some_iff less).mp drawn
  rw [Int32.le_iff_toInt_le, Int32.lt_iff_toInt_lt]
  omega

/-- **Each of them has equally many words.** -/
theorem ncard_drawn? (low : first ≤ i) (high : i < last) :
    {word | drawn? first last word = some i}.ncard =
      2 ^ leadingZeros (width first last).toNat := by
  have less : first < last := Int32.lt_of_le_of_lt low high
  have count := toNat_width less
  rw [Int32.le_iff_toInt_le] at low
  rw [Int32.lt_iff_toInt_lt] at high
  obtain ⟨k, hk⟩ := Int.eq_ofNat_of_zero_le (show 0 ≤ i.toInt - first.toInt by omega)
  rw [← ncard_words (width_pos less) (UInt32.toNat_lt _) (show k < _ by omega)]
  congr 1
  ext word
  rw [Set.mem_ofPred_eq, Set.mem_ofPred_eq, drawn?_eq_some_iff less]
  refine and_congr_right fun _ => ?_
  omega

/-- The other words are thrown away. -/
theorem ncard_thrown (less : first < last) :
    (width first last).toNat * 2 ^ leadingZeros (width first last).toNat +
      {word | drawn? first last word = none}.ncard = 2 ^ 32 := by
  have thrown : {word | drawn? first last word = none} =
      {word | keepsWord (width first last).toNat word = true}ᶜ := by
    ext word
    rw [Set.mem_compl_iff, Set.mem_ofPred_eq, Set.mem_ofPred_eq, drawn?_eq_none_iff less,
      Bool.not_eq_true]
  rw [thrown, ← ncard_kept (width_pos less) (width first last).toNat_lt, Set.ncard_add_ncard_compl,
    card_words]

theorem two_mul_ncard_thrown_le (less : first < last) :
    2 * {word | drawn? first last word = none}.ncard ≤ 2 ^ 32 := by
  have all := ncard_thrown less
  have half := (mul_leadingZeros_mem (width_pos less) (width first last).toNat_lt).1
  omega

end MachineWords

end Number

end CabScript
