import CabScript.Proofs.Truncation
import CabScript.Proofs.WordRounds
import Mathlib

/-!
# Uniform draws of whole numbers

A whole number is drawn in rounds. Each round takes a word, and the first word that is kept decides.
As every integer has equally many words in a round, it has equally many sequences of words of any
length: what all integers together leave out are the sequences of words that are thrown away, at
most one in `2 ^ n` of `n` words.

On a source the rounds are bounded, because a source may never give a word that is kept. A source
that counts comes round before the bound is reached.

## Main definitions

* `Number.ending`: the sequences of words that decide for one result.
* `Number.words`, `Number.after`: the words of a source, and what is left of it after them.
* `Number.thrownAway`: how many words are thrown away before one is kept.

## Main statements

* `Number.ncard_ending`: each result has an equal part of the sequences that decide.
* `Number.drawBelow_eq`: a draw stops at the first word that is kept.
* `Stepper.thrownAway_lt`: on a source that counts the bound is not reached.
* `randomInt_uniform`: what is drawn between two doubles.
-/

namespace CabScript

namespace Number

/-! ## Sequences of words -/

section Sequences

variable {α β : Type} {round : α → Option β} {b : β} {n : ℕ}

/-- The sequences of `n` words among which the first one that is kept stands for `b`. -/
def ending (round : α → Option β) (n : ℕ) (b : β) : Set (List α) :=
  {ws | ws.length = n ∧ ws.findSome? round = some b}

theorem ncard_lists [Finite α] (n : ℕ) : {ws : List α | ws.length = n}.ncard = Nat.card α ^ n := by
  have := Fintype.ofFinite α
  calc {ws : List α | ws.length = n}.ncard = Nat.card (List.Vector α n) := rfl
    _ = Nat.card α ^ n := by rw [Nat.card_eq_fintype_card, card_vector, Nat.card_eq_fintype_card]

/-- The first word stands for `b`, or it is thrown away and the others are such a sequence. -/
theorem ending_succ : ending round (n + 1) b =
    (fun p : α × List α => p.1 :: p.2) '' ({w | round w = some b} ×ˢ {ws | ws.length = n} ∪
      {w | round w = none} ×ˢ ending round n b) := by
  ext ws
  constructor
  · rintro ⟨length, found⟩
    obtain _ | ⟨w, ws⟩ := ws
    · cases length
    · refine ⟨(w, ws), ?_, rfl⟩
      have length : ws.length = n := Nat.succ.inj length
      cases first : round w with
      | none =>
        rw [List.findSome?_cons, first] at found
        exact .inr ⟨first, length, found⟩
      | some b' =>
        rw [List.findSome?_cons, first] at found
        exact .inl ⟨first.trans found, length⟩
  · rintro ⟨⟨w, ws⟩, ⟨first, length⟩ | ⟨first, length, found⟩, rfl⟩
    · refine ⟨congrArg Nat.succ length, ?_⟩
      change round w = some b at first
      rw [List.findSome?_cons, first]
    · refine ⟨congrArg Nat.succ length, ?_⟩
      change round w = none at first
      rwa [List.findSome?_cons, first]

theorem ncard_ending_succ [Finite α] : (ending round (n + 1) b).ncard =
    {w | round w = some b}.ncard * Nat.card α ^ n +
      {w | round w = none}.ncard * (ending round n b).ncard := by
  have injective : Function.Injective (fun p : α × List α => p.1 :: p.2) := by
    rintro ⟨w, ws⟩ ⟨w', ws'⟩ same
    obtain ⟨rfl, rfl⟩ := List.cons.inj same
    rfl
  have disjoint : Disjoint ({w | round w = some b} ×ˢ {ws : List α | ws.length = n})
      ({w | round w = none} ×ˢ ending round n b) := by
    rw [Set.disjoint_left]
    rintro ⟨w, ws⟩ ⟨kept, -⟩ ⟨thrown, -⟩
    exact Option.some_ne_none b (kept.symm.trans thrown)
  have finite : {ws : List α | ws.length = n}.Finite := List.finite_length_eq α n
  have finite' : (ending round n b).Finite := finite.subset fun ws mem => mem.1
  rw [ending_succ, Set.ncard_image_of_injective _ injective,
    Set.ncard_union_eq disjoint ((Set.toFinite _).prod finite) ((Set.toFinite _).prod finite'),
    Set.ncard_prod, Set.ncard_prod, ncard_lists]

/-- **Rounds are uniform** where each of `count` results has `share` of the words: besides the
sequences of words that are thrown away, each of the results has an equal part of them. -/
theorem ncard_ending [Finite α] {count share : ℕ} (words : {w | round w = some b}.ncard = share)
    (all : count * share + {w | round w = none}.ncard = Nat.card α) (n : ℕ) :
    count * (ending round n b).ncard + {w | round w = none}.ncard ^ n = Nat.card α ^ n := by
  induction n with
  | zero =>
    have empty : ending round 0 b = ∅ := by
      refine Set.eq_empty_of_forall_notMem ?_
      rintro ws ⟨length, found⟩
      rw [List.eq_nil_of_length_eq_zero length] at found
      cases found
    rw [empty, Set.ncard_empty, mul_zero, zero_add, pow_zero, pow_zero]
  | succ n ih =>
    rw [ncard_ending_succ, words]
    calc count * (share * Nat.card α ^ n + {w | round w = none}.ncard * (ending round n b).ncard) +
          {w | round w = none}.ncard ^ (n + 1)
        = count * share * Nat.card α ^ n + {w | round w = none}.ncard *
            (count * (ending round n b).ncard + {w | round w = none}.ncard ^ n) := by ring
      _ = (count * share + {w | round w = none}.ncard) * Nat.card α ^ n := by
        rw [ih]
        ring
      _ = Nat.card α ^ (n + 1) := by
        rw [all]
        ring

end Sequences

/-! ## Draws from a source -/

/-- How many words are thrown away before one is kept. -/
def thrownAway {α β : Type} (round : α → Option β) (ws : List α) : ℕ :=
  ws.findIdx fun w => (round w).isSome

/-- Where a sequence decides, it is what is thrown away, the word that decides, and a rest. -/
theorem exists_split {α β : Type} {round : α → Option β} {ws : List α} {b : β}
    (found : ws.findSome? round = some b) :
    ∃ thrown w rest, ws = thrown ++ w :: rest ∧ (∀ w ∈ thrown, round w = none) ∧
      round w = some b ∧ thrownAway round ws = thrown.length := by
  obtain ⟨thrown, w, rest, rfl, kept, rejected⟩ := List.findSome?_eq_some_iff.mp found
  refine ⟨thrown, w, rest, rfl, rejected, kept, ?_⟩
  have none_kept : thrown.findIdx (fun w => (round w).isSome) = thrown.length := by
    rw [List.findIdx_eq_length]
    intro w mem
    rw [rejected w mem]
    rfl
  rw [thrownAway, List.findIdx_append, none_kept, if_neg (Nat.lt_irrefl _), List.findIdx_cons, kept]
  exact Nat.zero_add _

section Sources

variable {γ : Type} [WordSource γ]

/-- The next `n` words of a source. -/
def words (source : γ) : ℕ → List UInt32
  | 0 => []
  | n + 1 => (WordSource.next32 source).1 :: words (WordSource.next32 source).2 n

/-- The source after `n` words. -/
def after (source : γ) : ℕ → γ
  | 0 => source
  | n + 1 => after (WordSource.next32 source).2 n

theorem length_words (source : γ) (n : ℕ) : (words source n).length = n := by
  induction n generalizing source with
  | zero => rfl
  | succ n ih => exact congrArg Nat.succ (ih _)

theorem getElem?_words (source : γ) {n j : ℕ} (below : j < n) :
    (words source n)[j]? = some (WordSource.next32 (after source j)).1 := by
  induction j generalizing source n with
  | zero =>
    obtain ⟨n, rfl⟩ := Nat.exists_eq_succ_of_ne_zero below.ne'
    rfl
  | succ j ih =>
    obtain ⟨n, rfl⟩ := Nat.exists_eq_succ_of_ne_zero (Nat.ne_zero_of_lt below)
    exact ih _ (Nat.lt_of_succ_lt_succ below)

variable {range patience n : ℕ} {word : UInt32} {thrown rest : List UInt32} {source : γ}

/-- What is drawn is in the range even if all words are thrown away. -/
theorem drawBelow_lt (pos : 0 < range) (patience : ℕ) (source : γ) :
    (drawBelow range patience source).1 < range := by
  induction patience generalizing source with
  | zero => exact outcome_lt pos _
  | succ patience ih =>
    rw [drawBelow]
    dsimp only
    split_ifs
    · exact outcome_lt pos _
    · exact ih _

/-- **A draw stops at the first word that is kept.** -/
theorem drawBelow_eq (given : words source n = thrown ++ word :: rest)
    (rejected : ∀ w ∈ thrown, keepsWord range w = false) (kept : keepsWord range word = true)
    (patient : thrown.length ≤ patience) :
    drawBelow range patience source = (outcome range word, after source (thrown.length + 1)) := by
  induction thrown generalizing source n patience with
  | nil =>
    obtain _ | n := n
    · cases given
    · obtain ⟨rfl, -⟩ := List.cons.inj given
      cases patience with
      | zero => rfl
      | succ patience =>
        rw [drawBelow]
        exact if_pos kept
  | cons w thrown ih =>
    obtain _ | n := n
    · cases given
    · obtain ⟨rfl, later⟩ := List.cons.inj given
      obtain ⟨patience, rfl⟩ := Nat.exists_eq_succ_of_ne_zero (Nat.ne_zero_of_lt patient)
      have next := ih later (fun w mem => rejected w (List.mem_cons_of_mem _ mem))
        (Nat.le_of_succ_le_succ patient)
      rw [drawBelow]
      exact (if_neg (Bool.eq_false_iff.mp (rejected _ List.mem_cons_self))).trans next

variable {low high : Float} {first last i : Int32}

/-- If there is no integer, nothing is drawn. -/
theorem randomInt_of_le (hfirst : CutsTo low first.toInt) (hlast : CutsTo high last.toInt)
    (empty : last ≤ first) (source : γ) :
    randomInt low high source = (ofInt first.toInt, source) := by
  rw [randomInt, (cutsTo_toInt32 low).unique hfirst, (cutsTo_toInt32 high).unique hlast]
  exact if_pos (Int32.le_iff_toInt_le.mp empty)

/-- If there is one, what is drawn below the number of integers is added to the first one. -/
theorem randomInt_of_lt (hfirst : CutsTo low first.toInt) (hlast : CutsTo high last.toInt)
    (less : first < last) (source : γ) :
    randomInt low high source =
      (ofInt (first.toInt + (drawBelow (width first last).toNat Number.patience source).1),
        (drawBelow (width first last).toNat Number.patience source).2) := by
  have count : (last.toInt - first.toInt).toNat = (width first last).toNat := by
    rw [← toNat_width less, Int.toNat_natCast]
  rw [randomInt, (cutsTo_toInt32 low).unique hfirst, (cutsTo_toInt32 high).unique hlast, ← count]
  exact if_neg (Int32.lt_iff_toInt_lt.mp less).not_ge

/-- **Every integer that is drawn is in the range,** and it is the value of the result. -/
theorem exists_randomInt_eq (hfirst : CutsTo low first.toInt) (hlast : CutsTo high last.toInt)
    (less : first < last) (source : γ) :
    ∃ i : ℤ, i ∈ Set.Ico first.toInt last.toInt ∧ (randomInt low high source).1 = ofInt i ∧
      value? (ofInt i) = some (i : ℚ) := by
  have count := toNat_width less
  have below := drawBelow_lt (width_pos less) Number.patience source
  have first_ge := first.le_toInt
  have last_lt := last.toInt_lt
  refine ⟨_, ⟨?_, ?_⟩, by rw [randomInt_of_lt hfirst hlast less], value?_ofInt ?_⟩ <;> omega

/-- **On a source** the first word that is kept is drawn, and nothing behind it. -/
theorem randomInt_eq (hfirst : CutsTo low first.toInt) (hlast : CutsTo high last.toInt)
    (less : first < last) (found : (words source n).findSome? (drawn? first last) = some i)
    (patient : thrownAway (drawn? first last) (words source n) ≤ Number.patience) :
    randomInt low high source = (ofInt i.toInt,
      after source (thrownAway (drawn? first last) (words source n) + 1)) := by
  obtain ⟨thrown, word, rest, given, rejected, kept, length⟩ := exists_split found
  obtain ⟨keeps, sum⟩ := (drawn?_eq_some_iff less).mp kept
  rw [length] at patient ⊢
  rw [randomInt_of_lt hfirst hlast less, drawBelow_eq given
    (fun w mem => (drawn?_eq_none_iff less).mp (rejected w mem)) keeps patient, sum]

end Sources

end Number

/-! ## A source that counts -/

namespace Stepper

open Number

variable {source : Stepper} {n : ℕ}

theorem after_eq (source : Stepper) (n : ℕ) :
    after source n = { source with state := source.state + UInt64.ofNat n * source.increment } := by
  induction n generalizing source with
  | zero => simp [after]
  | succ n ih =>
    have step : UInt64.ofNat (n + 1) * source.increment =
        source.increment + UInt64.ofNat n * source.increment := by
      rw [UInt64.ofNat_add, add_mul, add_comm]
      exact congrArg (· + _) (one_mul _)
    rw [step, ← add_assoc]
    exact ih _

/-- **The words come round.** -/
theorem next32_after_add (source : Stepper) (n : ℕ) :
    (WordSource.next32 (after source (n + 2 ^ 32))).1 = (WordSource.next32 (after source n)).1 := by
  rw [after_eq, after_eq]
  show (source.state + UInt64.ofNat (n + 2 ^ 32) * source.increment).toUInt32 =
    (source.state + UInt64.ofNat n * source.increment).toUInt32
  have same : (UInt64.ofNat (n + 2 ^ 32)).toUInt32 = (UInt64.ofNat n).toUInt32 := by
    rw [UInt64.ofNat_add, UInt64.toUInt32_add]
    exact add_zero _
  rw [UInt64.toUInt32_add, UInt64.toUInt32_add, UInt64.toUInt32_mul, UInt64.toUInt32_mul, same]

/-- **The bound is not reached:** a word that is kept comes before the words come round. -/
theorem thrownAway_lt {β : Type} {round : UInt32 → Option β} {b : β}
    (found : (words source n).findSome? round = some b) :
    thrownAway round (words source n) < patience := by
  obtain ⟨thrown, word, rest, given, rejected, kept, length⟩ := exists_split found
  rw [length]
  by_contra long
  obtain ⟨j, hj⟩ : ∃ j, thrown.length = j + 2 ^ 32 := Nat.exists_eq_add_of_le' (not_lt.mp long)
  have inside : thrown.length < n := by
    rw [← length_words source n, given, List.length_append, List.length_cons]
    omega
  have decides : (words source n)[thrown.length]? = some word := by
    rw [given, List.getElem?_append_right le_rfl, Nat.sub_self]
    rfl
  have earlier : (words source n)[j]? = some word := by
    rw [getElem?_words source (by omega), ← next32_after_add, ← hj, ← getElem?_words source inside,
      decides]
  rw [given, List.getElem?_append_left (by omega)] at earlier
  rw [rejected word (List.mem_of_getElem? earlier)] at kept
  cases kept

end Stepper

open Number

/-- **A whole number is drawn uniformly.** Let the two doubles be cut to integers of 32 bits.

* If the second integer is not greater, the first one is the result and nothing is drawn.
* Otherwise the result is an integer from the first on and below the second, whatever the source is.
* On a source it is the integer of the first word that is kept, and no word behind it is drawn.
  (Not more words than `patience` are thrown away, and never as many on a source that counts.)
* Only those integers have words, and each of them has the same power of two of words: it is as
  great as there are leading zeros in the number of integers.
* At most half of all words are thrown away.
* Each integer has an equal part of the sequences of words, of any length, that decide. -/
theorem randomInt_uniform {γ : Type} [WordSource γ] {low high : Float} {first last : Int32}
    (hfirst : CutsTo low first.toInt) (hlast : CutsTo high last.toInt) :
    (last ≤ first → ∀ source : γ, randomInt low high source = (ofInt first.toInt, source)) ∧
    (first < last →
      (∀ source : γ, ∃ i : ℤ, i ∈ Set.Ico first.toInt last.toInt ∧
        (randomInt low high source).1 = ofInt i ∧ value? (ofInt i) = some (i : ℚ)) ∧
      (∀ (source : γ) n i, (words source n).findSome? (drawn? first last) = some i →
        thrownAway (drawn? first last) (words source n) ≤ patience →
        randomInt low high source = (ofInt i.toInt,
          after source (thrownAway (drawn? first last) (words source n) + 1))) ∧
      (∀ word i, drawn? first last word = some i → first ≤ i ∧ i < last) ∧
      (∀ i, first ≤ i → i < last → {word | drawn? first last word = some i}.ncard =
        2 ^ (width first last).toBitVec.clz.toNat) ∧
      2 * {word | drawn? first last word = none}.ncard ≤ 2 ^ 32 ∧
      ∀ i n, first ≤ i → i < last →
        (last.toInt - first.toInt) * (ending (drawn? first last) n i).ncard +
          {word | drawn? first last word = none}.ncard ^ n = (2 ^ 32) ^ n) := by
  refine ⟨randomInt_of_le hfirst hlast, fun less => ⟨exists_randomInt_eq hfirst hlast less,
    fun source n i => randomInt_eq hfirst hlast less, fun word i => mem_of_drawn? less,
    fun i low high => ?_, two_mul_ncard_thrown_le less, fun i n low high => ?_⟩⟩
  · rw [ncard_drawn? low high, ← toNat_clz (width_pos less)]
    rfl
  · have all := ncard_thrown less
    rw [← card_words] at all
    have part := ncard_ending (ncard_drawn? low high) all n
    rw [card_words] at part
    rw [← toNat_width less]
    exact_mod_cast part

/-- Between doubles beyond both ends the number of integers is no signed word: the word `1` is
thrown away and the word `2` decides. Between `5.5` and a NaN there is no integer. -/
theorem randomInt_uniform_beyond_both_ends :
    let source : Stepper := ⟨1, 1⟩
    randomInt (-3e9) 2.5e9 source = (ofInt (-2147483647), ⟨3, 1⟩) ∧
      {word | drawn? Int32.minValue Int32.maxValue word = some 0}.ncard = 1 ∧
      randomInt 5.5 (0.0 / 0.0) source = (ofInt 5, source) := by
  intro source
  have cuts {x : Float} {i : Int32} (cut : toInt32 x = i.toInt) : CutsTo x i.toInt :=
    cut ▸ cutsTo_toInt32 x
  obtain ⟨-, wide⟩ := @randomInt_uniform Stepper _ (-3e9) 2.5e9 Int32.minValue Int32.maxValue
    (cuts (by decide +kernel)) (cuts (by decide +kernel))
  obtain ⟨-, onSource, -, count, -⟩ := wide (by decide)
  obtain ⟨empty, -⟩ := @randomInt_uniform Stepper _ 5.5 (0.0 / 0.0) 5 0
    (cuts (by decide +kernel)) (cuts (by decide +kernel))
  have one : thrownAway (drawn? Int32.minValue Int32.maxValue) (words source 2) = 1 := by
    decide +kernel
  have drawn := onSource source 2 (-2147483647) (by decide +kernel) (by decide +kernel)
  rw [one] at drawn
  exact ⟨drawn, (count 0 (by decide) (by decide)).trans (by decide +kernel),
    empty (by decide) source⟩

end CabScript
