import CabScript.Number.Layout
import CabScript.Proofs.NumberOrder
import CabScript.Proofs.ShortestDecimal

/-!
# Texts of numbers

In the listing of a script numbers stand between other words. What reading a listing needs of them
is little: a number is written with digits, a point and a minus sign, or as one of three words, and
no two doubles are written alike. The positional layout of this library has these properties. Its
text says a sign and a value, and the value is that of a decimal that identifies the double.

## Main definitions

* `looksLikeNumber`, `Legible`: what a listing needs of the texts of numbers.
* `Layout.Spells`: digits with a decimal point, and the number that they spell.
* `Layout.said`, `Layout.meaning`: what a text says, and what the text of a double has to say.

## Main statements

* `Layout.spells_positional`: the positional form of a decimal spells its value.
* `Layout.said_text`: the text of a double says what it has to.
* `legible_word`: the texts of doubles as words are legible.
-/

namespace CabScript

open Float.Model (UnpackedFloat)
open Float.Model.UnpackedFloat (Sign)

/-- A character that numbers are written with. -/
def isNumeral (c : Char) : Bool :=
  c.isDigit || c == '-' || c == '.'

/-- Whether a text could be that of a number: one of the three words for numbers without digits, or
numerals with a digit among them. -/
def looksLikeNumber (text : List Char) : Bool :=
  text == ['N', 'a', 'N'] || text == ['i', 'n', 'f'] || text == ['-', 'i', 'n', 'f'] ||
    text.all isNumeral && text.any Char.isDigit

/-- **What a listing needs of the texts of numbers:** they look like numbers, and different doubles
look different. There is one NaN, and the two zeros are different. -/
structure Legible (print : Float → String) : Prop where
  shape : ∀ x, looksLikeNumber (print x).toList = true
  injective : Function.Injective print

namespace Layout

/-! ## Digits and a point -/

/-- Every character is a digit. -/
def AllDigits (text : List Char) : Prop :=
  ∀ c ∈ text, c.isDigit = true

/-- Digits spell a number, also with a decimal point behind some of them. -/
inductive Spells : List Char → ℚ → Prop where
  | whole {digits : List Char} (all : AllDigits digits) (nonempty : digits ≠ []) :
    Spells digits (Nat.ofDigitChars 10 digits 0)
  | fraction {before behind : List Char} (all : AllDigits (before ++ behind))
      (nonempty : before ≠ []) :
    Spells (before ++ '.' :: behind)
      (Nat.ofDigitChars 10 (before ++ behind) 0 / 10 ^ behind.length)

/-- The number that digits with a decimal point spell. -/
def reading (text : List Char) : ℚ :=
  Nat.ofDigitChars 10 (text.filter (· ≠ '.')) 0 / 10 ^ (text.dropWhile (· ≠ '.')).tail.length

theorem AllDigits.ne_point {text : List Char} (all : AllDigits text) :
    ∀ c ∈ text, decide (c ≠ '.') = true := by
  intro c mem
  refine decide_eq_true ?_
  rintro rfl
  cases all _ mem

/-- **A text spells one number,** which can be read from it. -/
theorem Spells.reading_eq {text : List Char} {x : ℚ} (spells : Spells text x) :
    reading text = x := by
  cases spells with
  | whole all =>
    rw [reading, List.filter_eq_self.mpr all.ne_point, List.dropWhile_eq_nil_iff.mpr all.ne_point]
    simp
  | @fraction before behind all =>
    obtain ⟨first, second⟩ := List.forall_mem_append.mp all.ne_point
    rw [reading, List.filter_append, List.filter_cons_of_neg (by simp),
      List.filter_eq_self.mpr first, List.filter_eq_self.mpr second,
      List.dropWhile_append_of_pos first, List.dropWhile_cons_of_neg (by simp), List.tail_cons]

theorem Spells.isDigit_or_point {text : List Char} {x : ℚ} (spells : Spells text x) :
    ∀ c ∈ text, c.isDigit = true ∨ c = '.' := by
  intro c mem
  cases spells with
  | whole all => exact .inl (all c mem)
  | fraction all =>
    rcases List.mem_append.mp mem with mem | _ | ⟨_, mem⟩
    · exact .inl (all c (List.mem_append_left _ mem))
    · exact .inr rfl
    · exact .inl (all c (List.mem_append_right _ mem))

theorem Spells.exists_isDigit {text : List Char} {x : ℚ} (spells : Spells text x) :
    ∃ c ∈ text, c.isDigit = true := by
  cases spells with
  | whole all nonempty =>
    obtain ⟨c, mem⟩ := List.exists_mem_of_ne_nil _ nonempty
    exact ⟨c, mem, all c mem⟩
  | fraction all nonempty =>
    obtain ⟨c, mem⟩ := List.exists_mem_of_ne_nil _ nonempty
    exact ⟨c, List.mem_append_left _ mem, all c (List.mem_append_left _ mem)⟩

theorem allDigits_toString (n : ℕ) : AllDigits (toString n).toList := by
  intro c mem
  rw [Nat.toString_eq_repr, Nat.toList_repr] at mem
  exact Nat.isDigit_of_mem_toDigits (by decide) (by decide) mem

theorem ofDigitChars_toString (n : ℕ) : Nat.ofDigitChars 10 (toString n).toList 0 = n := by
  rw [Nat.toString_eq_repr, Nat.toList_repr, Nat.ofDigitChars_toDigits (by decide) (by decide)]

theorem toString_ne_nil (n : ℕ) : (toString n).toList ≠ [] := by
  rw [Nat.toString_eq_repr, Nat.toList_repr]
  exact Nat.toDigits_ne_nil

theorem allDigits_zeros (count : ℕ) : AllDigits (zeros count).toList := by
  intro c mem
  rw [zeros, String.toList_ofList] at mem
  obtain ⟨-, rfl⟩ := List.mem_replicate.mp mem
  rfl

theorem AllDigits.append {text rest : List Char} (all : AllDigits text) (all' : AllDigits rest) :
    AllDigits (text ++ rest) :=
  List.forall_mem_append.mpr ⟨all, all'⟩

theorem ofDigitChars_zeros (count start : ℕ) :
    Nat.ofDigitChars 10 (zeros count).toList start = start * 10 ^ count := by
  rw [zeros, String.toList_ofList, Nat.ofDigitChars_replicate_zero, Nat.mul_comm]

/-- Digits with zeros behind them, -/
theorem spells_zeros (digits count : ℕ) :
    Spells ((toString digits).toList ++ (zeros count).toList) (digits * 10 ^ count) := by
  have spells := Spells.whole ((allDigits_toString digits).append (allDigits_zeros count))
    (List.append_ne_nil_of_left_ne_nil (toString_ne_nil digits) _)
  rw [Nat.ofDigitChars_append, ofDigitChars_toString, ofDigitChars_zeros] at spells
  exact_mod_cast spells

/-- digits with a point and zeros in front of them, -/
theorem spells_behind_point (digits count : ℕ) :
    Spells ('0' :: '.' :: ((zeros count).toList ++ (toString digits).toList))
      (digits / 10 ^ (count + (toString digits).length)) := by
  have all : AllDigits (['0'] ++ ((zeros count).toList ++ (toString digits).toList)) :=
    .append (by simp [AllDigits]) ((allDigits_zeros count).append (allDigits_toString digits))
  have spells := Spells.fraction all (by simp)
  have leading : Nat.ofDigitChars 10 ['0'] 0 = 0 := rfl
  rw [Nat.ofDigitChars_append, leading, Nat.ofDigitChars_append, ofDigitChars_zeros, Nat.zero_mul,
    ofDigitChars_toString, List.length_append, String.length_toList, String.length_toList, zeros,
    String.length_ofList, List.length_replicate] at spells
  exact spells

/-- and digits with a point between them. -/
theorem spells_around_point (digits places : ℕ) (inside : places < (toString digits).length) :
    Spells ((toString digits).toList.take ((toString digits).length - places) ++
      '.' :: (toString digits).toList.drop ((toString digits).length - places))
      (digits / 10 ^ places) := by
  have all := allDigits_toString digits
  have nonempty : (toString digits).toList.take ((toString digits).length - places) ≠ [] := by
    rw [ne_eq, List.take_eq_nil_iff]
    rintro (nothing | nil)
    · omega
    · exact toString_ne_nil digits nil
  rw [← List.take_append_drop ((toString digits).length - places) (toString digits).toList] at all
  have spells := Spells.fraction all nonempty
  rw [List.take_append_drop, ofDigitChars_toString, List.length_drop, String.length_toList,
    Nat.sub_sub_self inside.le] at spells
  exact spells

/-- **The positional form of a decimal spells its value.** -/
theorem spells_positional (d : Decimal) : Spells (word.positional d).toList d.value := by
  unfold positional
  split
  · rename_i whole
    obtain ⟨n, hn⟩ := Int.eq_ofNat_of_zero_le whole
    have spells := spells_zeros d.digits n
    rw [Decimal.value, hn, zpow_natCast]
    simpa [word] using spells
  rename_i small
  obtain ⟨places, hplaces⟩ : ∃ places : ℕ, d.exponent = -(places : ℤ) :=
    Int.exists_eq_neg_ofNat (by omega)
  have value : d.value = d.digits / 10 ^ places := by
    rw [Decimal.value, hplaces, zpow_neg, zpow_natCast, div_eq_mul_inv]
  rw [value]
  simp only [hplaces, neg_neg, Int.toNat_natCast]
  split
  · rename_i short
    have spells := spells_behind_point d.digits (places - (toString d.digits).length)
    rw [Nat.sub_add_cancel short] at spells
    simpa using spells
  · rename_i long
    have spells := spells_around_point d.digits places (by omega)
    simpa using spells

/-! ## Reading a text -/

/-- The size that a text without a sign says; none for an infinity. -/
def sizeSaid (text : List Char) : Option ℚ :=
  if text = "inf".toList then none else some (reading text)

/-- The sign and the size that a text says; nothing for `NaN`. -/
def said : List Char → Option (Sign × Option ℚ)
  | ['N', 'a', 'N'] => none
  | '-' :: text => some (.negative, sizeSaid text)
  | text => some (.positive, sizeSaid text)

/-- What the text of a double says. -/
def meaning : UnpackedFloat → Option (Sign × Option ℚ)
  | .notANumber => none
  | .infinity s => some (s, none)
  | .zero s => some (s, some 0)
  | .finite s m e pos => some (s, some (Positive.shortest ⟨m, e, pos⟩).value)

theorem Spells.zero : Spells ['0'] 0 := by
  have digit : AllDigits ['0'] := by simp [AllDigits]
  exact_mod_cast Spells.whole digit (by simp)

/-- Digits are no infinity, -/
theorem Spells.sizeSaid {text : List Char} {x : ℚ} (spells : Spells text x) :
    Layout.sizeSaid text = some x := by
  rw [Layout.sizeSaid, if_neg, spells.reading_eq]
  rintro rfl
  simpa using spells.isDigit_or_point 'i' (by decide)

/-- and their sign stands in front of them. -/
theorem Spells.said {text : List Char} {x : ℚ} (spells : Spells text x) (s : Sign) :
    Layout.said ((sign s).toList ++ text) = some (s, some x) := by
  cases s with
  | negative =>
    show some (Sign.negative, Layout.sizeSaid text) = _
    rw [spells.sizeSaid]
  | positive =>
    show Layout.said text = _
    rw [← spells.sizeSaid]
    unfold Layout.said
    split
    · simpa using spells.isDigit_or_point 'N' (by simp)
    · simpa using spells.isDigit_or_point '-' (by simp)
    · rfl

/-- **What is written is what is said.** -/
theorem said_text (x : Float) : said (word.text x).toList = meaning x.toModel.unpack := by
  unfold text
  split
  · rename_i h
    rw [h]
    rfl
  · rename_i s h
    rw [h]
    cases s <;> rfl
  · rename_i s h
    rw [h, meaning]
    simpa [word] using Spells.zero.said s
  · rename_i s m e pos h
    rw [h, meaning, String.toList_append]
    exact (spells_positional _).said s

/-- What is said tells the number: a decimal that identifies one double identifies no other, and
none identifies a zero. -/
theorem eq_of_meaning_eq {a b : UnpackedFloat}
    (ha : ∀ s m e pos, a = .finite s m e pos → Positive.IsCanonical ⟨m, e, pos⟩)
    (hb : ∀ s m e pos, b = .finite s m e pos → Positive.IsCanonical ⟨m, e, pos⟩)
    (same : meaning a = meaning b) : a = b := by
  have positive (x : Positive) : x.shortest.value ≠ 0 :=
    (Positive.value_pos_of_mem_interval x.shortest_mem_interval).ne'
  cases a with
  | notANumber =>
    cases b with
    | notANumber => rfl
    | _ => cases same
  | infinity s =>
    cases b with
    | infinity s' =>
      cases same
      rfl
    | _ => cases same
  | zero s =>
    cases b with
    | zero s' =>
      cases same
      rfl
    | finite s' m' e' pos' =>
      obtain ⟨-, zero⟩ : s = s' ∧ 0 = (Positive.shortest ⟨m', e', pos'⟩).value := by
        simpa [meaning] using same
      exact absurd zero.symm (positive _)
    | _ => cases same
  | finite s m e pos =>
    cases b with
    | zero s' =>
      obtain ⟨-, zero⟩ : s = s' ∧ (Positive.shortest ⟨m, e, pos⟩).value = 0 := by
        simpa [meaning] using same
      exact absurd zero (positive _)
    | finite s' m' e' pos' =>
      obtain ⟨rfl, value⟩ : s = s' ∧
          (Positive.shortest ⟨m, e, pos⟩).value = (Positive.shortest ⟨m', e', pos'⟩).value := by
        simpa [meaning] using same
      have other := Positive.shortest_mem_interval ⟨m', e', pos'⟩
      rw [← value] at other
      cases Positive.eq_of_mem_interval (ha _ _ _ _ rfl) (hb _ _ _ _ rfl)
        (Positive.shortest_mem_interval ⟨m, e, pos⟩) other
      rfl
    | _ => cases same

/-- **Different doubles have different texts.** -/
theorem text_injective : Function.Injective word.text := by
  intro x y same
  refine toModel_unpack_injective (eq_of_meaning_eq (fun s m e pos => isCanonical_of_unpack)
    (fun s m e pos => isCanonical_of_unpack) ?_)
  simp only
  rw [← said_text, ← said_text, same]

/-- What spells a number, behind a sign, looks like a number. -/
theorem Spells.looksLikeNumber {text : List Char} {x : ℚ} (spells : Spells text x) (s : Sign) :
    CabScript.looksLikeNumber ((sign s).toList ++ text) = true := by
  have sign : (sign s).toList.all isNumeral = true := by cases s <;> rfl
  have numerals : text.all isNumeral = true := by
    refine List.all_eq_true.mpr fun c mem => ?_
    rcases spells.isDigit_or_point c mem with digit | rfl
    · simp [isNumeral, digit]
    · rfl
  have digit : text.any Char.isDigit = true := List.any_eq_true.mpr spells.exists_isDigit
  simp [CabScript.looksLikeNumber, sign, numerals, digit]

end Layout

/-- **The words for numbers in this library are legible.** -/
theorem legible_word : Legible Layout.word.text where
  shape x := by
    unfold Layout.text
    split
    · rfl
    · rename_i s _
      cases s <;> rfl
    · rename_i s _
      simpa [Layout.word] using Layout.Spells.zero.looksLikeNumber s
    · rename_i s m e pos _
      rw [String.toList_append]
      exact (Layout.spells_positional _).looksLikeNumber s
  injective := Layout.text_injective

end CabScript
