import CabScript.Proofs.NumberText
import CabScript.Proofs.RawStream
import CabScript.Proofs.SpelledOut
import CabScript.Script.Listing

/-!
# A listing tells what a script does

A listing is a row of words between blanks. It can be read back: no word has a blank in it, a word
for a number cannot be taken for one of an instruction, and different numbers and different
instructions have different words. What cannot be seen is how constants are grouped into blocks, and
which constants are missing for code that never runs. Neither matters to an evaluation.

## Main definitions

* `Token`, `tokens`: what the words of a listing stand for.

## Main statements

* `text_injective`: different instructions have different words.
* `tokens_of_listing_eq`: a listing is read in one way only.
* `trimmed_of_tokens_eq`: what is read is the script that runs, spelled out.
* `listing_faithful`: scripts with the same listing show the same.
-/

namespace CabScript

open Instruction

/-- What a word of a listing stands for. -/
inductive Token where
  | number (x : Float)
  | word (i : Instruction)

namespace Instruction

/-- Whether the instruction is listed by the constants that it pushes. -/
def isListedByValue : Instruction → Bool
  | constant | constants _ => true
  | _ => false

end Instruction

namespace Token

/-- The word itself. -/
def text (print : Float → String) : Token → String
  | number x => print x
  | word i => i.text

/-- The instruction that a token stands for, with all constants one by one. -/
def instruction : Token → Instruction
  | number _ => constant
  | word i => i

/-- The constant that a token stands for. -/
def value? : Token → Option Float
  | number x => some x
  | word _ => none

/-- The token is one of a listing, where constants are listed by their values. -/
def IsProper : Token → Prop
  | number _ => True
  | word i => i.isListedByValue = false

end Token

/-- The tokens of an instruction in its place. -/
def Allotted.tokens (a : Allotted) : List Token :=
  if a.instruction.isListedByValue then a.share.map .number else [.word a.instruction]

/-- The tokens of instructions with their pool. -/
def tokens (code : List Instruction) (pool : List Float) : List Token :=
  (allot code pool).flatMap Allotted.tokens

/-! ## Words -/

/-- A word that stands between blanks, is no number and has no operand in brackets. -/
def isPlainWord (text : List Char) : Bool :=
  !text.isEmpty && !looksLikeNumber text && text.all fun c => c != ' ' && c != '('

theorem isPlainWord_catalogue : ∀ entry ∈ catalogue, isPlainWord entry.1.toList = true := by
  decide +kernel

theorem nodup_words_catalogue : (catalogue.map Prod.fst).Nodup := by
  decide +kernel

theorem of_isPlainWord {text : List Char} (plain : isPlainWord text = true) :
    text ≠ [] ∧ looksLikeNumber text = false ∧ ' ' ∉ text ∧ '(' ∉ text := by
  simp only [isPlainWord, Bool.and_eq_true, Bool.not_eq_true', List.isEmpty_eq_false_iff] at plain
  obtain ⟨⟨nonempty, number⟩, all⟩ := plain
  refine ⟨nonempty, number, fun blank => ?_, fun bracket => ?_⟩
  · cases List.all_eq_true.mp all ' ' blank
  · cases List.all_eq_true.mp all '(' bracket

/-- A text that looks like a number is one word, and has no operand in brackets. -/
theorem of_looksLikeNumber {text : List Char} (number : looksLikeNumber text = true) :
    text ≠ [] ∧ ' ' ∉ text ∧ '(' ∉ text := by
  simp only [looksLikeNumber, Bool.or_eq_true, beq_iff_eq, or_assoc] at number
  rcases number with rfl | rfl | rfl | numerals
  · decide
  · decide
  · decide
  · obtain ⟨all, any⟩ := (Bool.and_eq_true_iff ..).mp numerals
    refine ⟨?_, fun blank => ?_, fun bracket => ?_⟩
    · rintro rfl
      cases any
    · cases List.all_eq_true.mp all ' ' blank
    · cases List.all_eq_true.mp all '(' bracket

theorem toList_text_unknown (code : UInt16) :
    (unknown code).text.toList = "unknown(".toList ++ ((toString code.toNat).toList ++ [')']) := by
  show ("unknown(" ++ toString code.toNat ++ ")").toList = _
  rw [String.toList_append, String.toList_append, List.append_assoc]
  rfl

theorem bracket_mem_text_unknown (code : UInt16) : '(' ∈ (unknown code).text.toList := by
  rw [toList_text_unknown]
  exact List.mem_append_left _ (by decide)

theorem blank_notMem_text_unknown (code : UInt16) : ' ' ∉ (unknown code).text.toList := by
  rw [toList_text_unknown, List.mem_append, List.mem_append]
  rintro (word | digits | bracket)
  · revert word
    decide
  · cases Layout.allDigits_toString _ _ digits
  · revert bracket
    decide

/-- The instructions that are listed by a word are those of the catalogue, and unknown ones. -/
theorem mem_catalogue_or_unknown {i : Instruction} (word : i.isListedByValue = false) :
    (i.text, i) ∈ catalogue ∨ ∃ code, i = unknown code := by
  by_cases known : ∃ code, i = unknown code
  · exact .inr known
  · refine .inl (mem_catalogue (by simpa using known) fun count block => ?_)
    subst block
    cases word

/-- The word of an instruction stands between blanks and is no number. -/
theorem isWord_text {i : Instruction} (word : i.isListedByValue = false) :
    i.text.toList ≠ [] ∧ ' ' ∉ i.text.toList ∧ looksLikeNumber i.text.toList = false := by
  rcases mem_catalogue_or_unknown word with listed | ⟨code, rfl⟩
  · obtain ⟨nonempty, number, blank, -⟩ := of_isPlainWord (isPlainWord_catalogue _ listed)
    exact ⟨nonempty, blank, number⟩
  · have bracket := bracket_mem_text_unknown code
    refine ⟨List.ne_nil_of_mem bracket, blank_notMem_text_unknown code, ?_⟩
    exact Bool.eq_false_iff.mpr fun number => (of_looksLikeNumber number).2.2 bracket

/-- Only the words of unknown codes have brackets. -/
theorem text_ne_unknown {i : Instruction} (listed : (i.text, i) ∈ catalogue) (code : UInt16) :
    i.text ≠ (unknown code).text := by
  intro same
  have plain := of_isPlainWord (isPlainWord_catalogue _ listed)
  rw [same] at plain
  exact plain.2.2.2 (bracket_mem_text_unknown code)

/-- **Different instructions have different words.** -/
theorem text_injective {i j : Instruction} (hi : i.isListedByValue = false)
    (hj : j.isListedByValue = false) (same : i.text = j.text) : i = j := by
  rcases mem_catalogue_or_unknown hi with listed | ⟨code, rfl⟩
  · rcases mem_catalogue_or_unknown hj with listed' | ⟨code', rfl⟩
    · exact congrArg Prod.snd
        (List.inj_on_of_nodup_map nodup_words_catalogue listed listed' same)
    · exact absurd same (text_ne_unknown listed code')
  · rcases mem_catalogue_or_unknown hj with listed' | ⟨code', rfl⟩
    · exact absurd same.symm (text_ne_unknown listed' code)
    · have digits := congrArg String.toList same
      rw [toList_text_unknown, toList_text_unknown] at digits
      have digits := List.append_cancel_right (List.append_cancel_left digits)
      have number := Nat.repr_injective (String.toList_inj.mp digits)
      rw [UInt16.toNat_inj.mp number]

/-! ## Reading a listing -/

section Reading

variable {print : Float → String}

theorem Token.isWord_text (legible : Legible print) {t : Token} (proper : t.IsProper) :
    (t.text print).toList ≠ [] ∧ ' ' ∉ (t.text print).toList := by
  cases t with
  | number x =>
    obtain ⟨nonempty, blank, -⟩ := of_looksLikeNumber (legible.shape x)
    exact ⟨nonempty, blank⟩
  | word i =>
    obtain ⟨nonempty, blank, -⟩ := CabScript.isWord_text proper
    exact ⟨nonempty, blank⟩

/-- **Different tokens have different words,** as long as numbers are legible. -/
theorem Token.text_injective (legible : Legible print) {t t' : Token} (proper : t.IsProper)
    (proper' : t'.IsProper) (same : t.text print = t'.text print) : t = t' := by
  have apart {x : Float} {i : Instruction} (hi : i.isListedByValue = false) :
      print x ≠ i.text := by
    intro same
    have number := legible.shape x
    rw [same, (CabScript.isWord_text hi).2.2] at number
    cases number
  cases t with
  | number x =>
    cases t' with
    | number y => rw [legible.injective same]
    | word j => exact absurd same (apart proper')
  | word i =>
    cases t' with
    | number y => exact absurd same.symm (apart proper)
    | word j => rw [CabScript.text_injective proper proper' same]

theorem isProper_of_mem_tokens {code : List Instruction} {pool : List Float} :
    ∀ t ∈ tokens code pool, t.IsProper := by
  intro t mem
  obtain ⟨a, -, mem⟩ := List.mem_flatMap.mp mem
  unfold Allotted.tokens at mem
  split at mem
  · obtain ⟨x, -, rfl⟩ := List.mem_map.mp mem
    trivial
  · rename_i word
    obtain rfl := List.mem_singleton.mp mem
    exact Bool.eq_false_iff.mpr word

theorem words_eq_tokens (a : Allotted) : a.words print = a.tokens.map (Token.text print) := by
  obtain ⟨i, share⟩ := a
  have numbers : share.map print = (share.map Token.number).map (Token.text print) := by
    rw [List.map_map]
    rfl
  cases i with
  | constant | constants => exact numbers
  | _ => rfl

theorem listingWith_eq_tokens (print : Float → String) (code : List Instruction)
    (pool : List Float) : Script.listingWith print code pool =
      " ".intercalate ((tokens code pool).map (Token.text print)) := by
  rw [Script.listingWith, tokens, List.map_flatMap, funext words_eq_tokens]

/-- Words between blanks can be told apart. -/
theorem eq_of_intercalate_eq {l m : List (List Char)} (hl : ∀ w ∈ l, w ≠ [] ∧ ' ' ∉ w)
    (hm : ∀ w ∈ m, w ≠ [] ∧ ' ' ∉ w) (same : [' '].intercalate l = [' '].intercalate m) :
    l = m := by
  -- a text is split into at least one word, and it has no empty word
  have nonempty {l : List (List Char)} (hl : ∀ w ∈ l, w ≠ [] ∧ ' ' ∉ w)
      (empty : [' '].intercalate l = []) : l = [] := by
    by_contra some
    have split := List.splitOn_intercalate ' ' (fun w mem => (hl w mem).2) some
    rw [empty] at split
    exact (hl [] (split ▸ List.mem_singleton_self [])).1 rfl
  by_cases some : l = []
  · subst some
    exact (nonempty hm same.symm).symm
  · have some' : m ≠ [] := by
      rintro rfl
      exact some (nonempty hl same)
    rw [← List.splitOn_intercalate ' ' (fun w mem => (hl w mem).2) some, same,
      List.splitOn_intercalate ' ' (fun w mem => (hm w mem).2) some']

theorem Token.eq_of_map_text_eq (legible : Legible print) {l m : List Token}
    (hl : ∀ t ∈ l, t.IsProper) (hm : ∀ t ∈ m, t.IsProper)
    (same : l.map (text print) = m.map (text print)) : l = m := by
  induction l generalizing m with
  | nil => exact (List.map_eq_nil_iff.mp same.symm).symm
  | cons t l ih =>
    obtain ⟨t', m, rfl, first, rest⟩ := List.map_eq_cons_iff.mp same.symm
    obtain ⟨proper, hl⟩ := List.forall_mem_cons.mp hl
    obtain ⟨proper', hm⟩ := List.forall_mem_cons.mp hm
    rw [text_injective legible proper' proper first, ih hl hm rest.symm]

/-- **A listing is read in one way only.** -/
theorem tokens_of_listing_eq (legible : Legible print) {code code' : List Instruction}
    {pool pool' : List Float}
    (same : Script.listingWith print code pool = Script.listingWith print code' pool') :
    tokens code pool = tokens code' pool' := by
  have words {code : List Instruction} {pool : List Float} :
      ∀ w ∈ ((tokens code pool).map (Token.text print)).map String.toList, w ≠ [] ∧ ' ' ∉ w := by
    intro w mem
    obtain ⟨text, listed, rfl⟩ := List.mem_map.mp mem
    obtain ⟨t, read, rfl⟩ := List.mem_map.mp listed
    exact Token.isWord_text legible (isProper_of_mem_tokens t read)
  rw [listingWith_eq_tokens, listingWith_eq_tokens, ← String.toList_inj,
    String.toList_intercalate, String.toList_intercalate] at same
  have texts := List.map_injective_iff.mpr (fun _ _ => String.toList_inj.mp)
    (eq_of_intercalate_eq words words same)
  exact Token.eq_of_map_text_eq legible isProper_of_mem_tokens isProper_of_mem_tokens texts

end Reading

/-! ## What a listing says about the code that runs -/

section Code

variable {code : List Instruction} {pool : List Float}

/-- The token ends what is evaluated. -/
def Token.isEnd : Token → Bool
  | word halt => true
  | _ => false

@[simp] theorem tokens_nil (pool : List Float) : tokens [] pool = [] := rfl

theorem tokens_cons (i : Instruction) (rest : List Instruction) (pool : List Float) :
    tokens (i :: rest) pool = Allotted.tokens ⟨i, pool.take i.poolUse⟩ ++
      tokens rest (pool.drop i.poolUse) := by
  rw [tokens, allot_cons, List.flatMap_cons, tokens]

/-- The tokens of the code that runs are those in front of the first `halt`. -/
theorem takeWhile_tokens (code : List Instruction) (pool : List Float) :
    (tokens code pool).takeWhile (!·.isEnd) = tokens (live code) pool := by
  induction code generalizing pool with
  | nil => rfl
  | cons i rest ih =>
    by_cases hi : i = halt
    · subst hi
      rw [live_halt, tokens_cons]
      rfl
    have own (share : List Float) : ∀ t ∈ Allotted.tokens ⟨i, share⟩, (!t.isEnd) = true := by
      intro t mem
      unfold Allotted.tokens at mem
      split at mem
      · obtain ⟨x, -, rfl⟩ := List.mem_map.mp mem
        rfl
      · obtain rfl := List.mem_singleton.mp mem
        cases i with
        | halt => exact absurd rfl hi
        | _ => rfl
    rw [live_cons hi, tokens_cons, tokens_cons, List.takeWhile_append_of_pos (own _), ih]

theorem isListedByValue_cases (i : Instruction) :
    (i.isListedByValue = true ∧ i.singly = List.replicate i.poolUse constant) ∨
      (i.isListedByValue = false ∧ i.singly = [i] ∧ i.poolUse = 0) := by
  cases i with
  | constant | constants => exact .inl ⟨rfl, rfl⟩
  | _ => exact .inr ⟨rfl, rfl, rfl⟩

/-- An instruction can be read from its tokens if its constants are there, -/
theorem map_instruction_tokens {i : Instruction} {share : List Float}
    (lasts : share.length = i.poolUse) :
    (Allotted.tokens ⟨i, share⟩).map Token.instruction = i.singly := by
  rcases isListedByValue_cases i with ⟨value, singly⟩ | ⟨word, singly, -⟩
  · rw [Allotted.tokens, if_pos value, List.map_map, singly, ← lasts]
    exact List.map_const' ..
  · rw [Allotted.tokens, if_neg (by simp [word]), singly]
    rfl

/-- and so can its constants. -/
theorem filterMap_value_tokens {i : Instruction} {share : List Float}
    (lasts : share.length = i.poolUse) :
    (Allotted.tokens ⟨i, share⟩).filterMap Token.value? = share := by
  rcases isListedByValue_cases i with ⟨value, -⟩ | ⟨word, -, nothing⟩
  · rw [Allotted.tokens, if_pos value, List.filterMap_map]
    exact List.filterMap_some
  · rw [nothing, List.length_eq_zero_iff] at lasts
    rw [Allotted.tokens, if_neg (by simp [word]), lasts]
    rfl

/-- **Code can be read from its tokens,** spelled out, with the constants that it takes, if its pool
lasts. -/
theorem code_of_tokens (lasts : totalPoolUse code ≤ pool.length) :
    (tokens code pool).map Token.instruction = spelledOut code ∧
      (tokens code pool).filterMap Token.value? = pool.take (totalPoolUse code) := by
  induction code generalizing pool with
  | nil => exact ⟨rfl, rfl⟩
  | cons i rest ih =>
    rw [totalPoolUse_cons] at lasts ⊢
    have share : (pool.take i.poolUse).length = i.poolUse :=
      List.length_take_of_le (by omega)
    obtain ⟨instructions, constants⟩ :=
      @ih (pool.drop i.poolUse) (by rw [List.length_drop]; omega)
    constructor
    · rw [tokens_cons, List.map_append, map_instruction_tokens share, instructions,
        spelledOut_cons]
    · rw [tokens_cons, List.filterMap_append, filterMap_value_tokens share, constants,
        List.take_add]

/-- **What is read from a listing is the script that runs,** spelled out. -/
theorem trimmed_of_tokens_eq {s t : Script}
    (same : tokens t.code t.constants = tokens s.code s.constants)
    (last : t.lastResult = s.lastResult) :
    s.spelledOut.trimmed.SameButStack t.spelledOut.trimmed := by
  have alive := congrArg (List.takeWhile (!·.isEnd)) same
  rw [takeWhile_tokens, takeWhile_tokens] at alive
  obtain ⟨code, constants⟩ := code_of_tokens s.totalPoolUse_le_constants
  obtain ⟨code', constants'⟩ := code_of_tokens t.totalPoolUse_le_constants
  rw [alive] at code' constants'
  constructor
  · show live (spelledOut t.code) = live (spelledOut s.code)
    rw [live_spelledOut, live_spelledOut, ← code, ← code']
  · show t.constants.take (totalPoolUse (live (spelledOut t.code))) =
      s.constants.take (totalPoolUse (live (spelledOut s.code)))
    rw [live_spelledOut, live_spelledOut, totalPoolUse_spelledOut, totalPoolUse_spelledOut,
      ← constants, ← constants']
  · exact last

end Code

/-! ## Evaluations -/

/-- Scripts with the same listing show the same, up to the addresses of errors. -/
theorem observation_of_listing_eq {print : Float → String} (legible : Legible print) {γ : Type}
    [WordSource γ] {s t : Script}
    (same : Script.listingWith print t.code t.constants =
      Script.listingWith print s.code s.constants)
    (last : t.lastResult = s.lastResult) (v : Viewpoint) (source : γ) :
    (t.evaluate v source).observation.readdress (spelledAddress t.code) =
      (s.evaluate v source).observation.readdress (spelledAddress s.code) := by
  have trimmed := trimmed_of_tokens_eq (tokens_of_listing_eq legible same) last
  rw [← Script.observation_spelledOut, ← Script.observation_spelledOut,
    ← t.spelledOut.observation_trimmed, ← s.spelledOut.observation_trimmed]
  exact (Script.evaluate_congr trimmed v source).1

/-- **A listing tells what a script does.** Let numbers be legible. From equal last results on, for
what any element sees and from any source, two scripts with the same listing have the same result or
fail for the same cause, with the same values left on the stack and with the same draws. They need
not group their constants into the same blocks, nor have the same constants left behind the end. -/
theorem listing_faithful {print : Float → String} (legible : Legible print) {γ : Type}
    [WordSource γ] {s t : Script}
    (same : Script.listingWith print t.code t.constants =
      Script.listingWith print s.code s.constants)
    (last : t.lastResult = s.lastResult) (v : Viewpoint) (source : γ) :
    ((∃ x, (s.evaluate v source).outcome = .ok x ∧ (t.evaluate v source).outcome = .ok x) ∨
      ∃ e e', (s.evaluate v source).outcome = .error (.error e) ∧
        (t.evaluate v source).outcome = .error (.error e') ∧ e'.fault = e.fault) ∧
    (t.evaluate v source).script.stack.values = (s.evaluate v source).script.stack.values ∧
    (t.evaluate v source).source = (s.evaluate v source).source := by
  have seen := observation_of_listing_eq legible same last v source
  have values := congrArg Observation.values seen
  have left := congrArg Observation.source seen
  have outcome :
      (t.evaluate v source).outcome.mapError (Failure.readdress (spelledAddress t.code)) =
        (s.evaluate v source).outcome.mapError (Failure.readdress (spelledAddress s.code)) :=
    congrArg Observation.outcome seen
  refine ⟨?_, values, left⟩
  rcases s.outcome_evaluate_cases v source with ⟨x, ok⟩ | ⟨_, _, e, -, error⟩
  · rcases t.outcome_evaluate_cases v source with ⟨y, ok'⟩ | ⟨_, _, e', -, error'⟩
    · rw [ok, ok'] at outcome
      cases outcome
      exact .inl ⟨x, ok, ok'⟩
    · rw [ok, error'] at outcome
      cases outcome
  · rcases t.outcome_evaluate_cases v source with ⟨y, ok'⟩ | ⟨_, _, e', -, error'⟩
    · rw [error, ok'] at outcome
      cases outcome
    · rw [error, error'] at outcome
      have cause := congrArg Error.fault (Failure.error.inj (Except.error.inj outcome))
      exact .inr ⟨e, e', error, error', cause⟩

/-- A block of two, and two single constants with an empty block between them and a block behind the
end for which nothing is left. -/
theorem listing_faithful_blocks : Legible Layout.word.text ∧ ∃ s t : Script,
    Script.ofCode [constants 2, binary .subtract, halt] [1.0, -2.0] = .ok s ∧
    Script.ofCode [constant, constants 0, constant, binary .subtract, halt, constants 7]
      [1.0, -2.0] = .ok t ∧
    t.listing = s.listing ∧ t.lastResult = s.lastResult ∧
      (t.evaluate (.ofWorld {}) (Stepper.mk 0 1)).script.stack.values =
        (s.evaluate (.ofWorld {}) (Stepper.mk 0 1)).script.stack.values := by
  let s : Script := ⟨[constants 2, binary .subtract, halt], [1.0, -2.0], ⟨[], 2⟩, 0.0, 2,
    Nat.le_refl 2, rfl⟩
  let t : Script := ⟨[constant, constants 0, constant, binary .subtract, halt, constants 7],
    [1.0, -2.0], ⟨[], 2⟩, 0.0, 2, Nat.le_refl 2, rfl⟩
  have same : t.listing = s.listing := rfl
  exact ⟨legible_word, s, t, rfl, rfl, same, rfl,
    (listing_faithful legible_word same rfl (.ofWorld {}) (Stepper.mk 0 1)).2.1⟩

end CabScript
