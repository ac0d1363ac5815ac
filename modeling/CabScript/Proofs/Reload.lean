import CabScript.Proofs.RawStream
import CabScript.Proofs.Session

/-!
# Saving and loading

A script is saved as the raw stream of its instructions, next to its constants. Only a count of more
than 16 bits keeps it from being saved. What is loaded has the same instructions and constants, with
a stack that is just deep enough, and no host can tell it from the script that was saved.

## Main statements

* `Script.encode_of_ofStream`: what was loaded is saved as the same stream.
* `Script.encode_of_wide`: the first operand that does not fit is the one that is blamed.
* `Script.exists_reload`: what was saved can be loaded.
* `reload_preserves`: all of it, for every script in every state of its history.
-/

namespace CabScript

open Instruction

/-! ## Operands that do not fit -/

theorem isEncodable_eq_false_iff {i : Instruction} :
    i.isEncodable = false ↔ ∃ count, i = .constants count ∧ 65535 < count := by
  cases i with
  | constants count =>
    rw [← Bool.not_eq_true, isEncodable_constants, Nat.not_le]
    constructor
    · exact fun wide => ⟨count, rfl, wide⟩
    · rintro ⟨_, same, wide⟩
      cases same
      exact wide
  | _ => simp [isEncodable]

namespace Script

variable {s t : Script} {code : List Instruction} {constants : List Float}

theorem encode_eq_ok_iff {stream : List UInt16} :
    s.encode = .ok stream ↔ Instruction.encode s.code = some stream := by
  rw [encode]
  cases Instruction.encode s.code <;> simp

/-- A script is saved as the codes of its instructions, if every operand fits. -/
theorem encode_of_fits (fits : ∀ i ∈ s.code, i.isEncodable = true) :
    s.encode = .ok (s.code.flatMap codes) :=
  encode_eq_ok_iff.mpr (encode_eq_some_iff.mpr ⟨rfl, fits⟩)

/-- The first operand that does not fit is the one that is blamed. -/
theorem encode_of_wide {before after : List Instruction} {i : Instruction}
    (split : s.code = before ++ i :: after) (fits : ∀ j ∈ before, j.isEncodable = true)
    (wide : i.isEncodable = false) :
    s.encode =
      .error ⟨.operandOutOfRange, some before.length, "constant array count"⟩ := by
  have refused : Instruction.encode s.code = none := by
    refine if_neg fun all => ?_
    rw [List.all_eq_true] at all
    rw [all i (by simp [split])] at wide
    cases wide
  have noneBefore : before.findIdx (!·.isEncodable) = before.length :=
    List.findIdx_eq_length_of_false fun j hj => by simp [fits j hj]
  have address : s.code.findIdx (!·.isEncodable) = before.length := by
    rw [split, List.findIdx_append, noneBefore, if_neg (Nat.lt_irrefl _), List.findIdx_cons, wide]
    exact Nat.zero_add _
  rw [encode, refused, address]

/-- **How saving fails:** by the first operand that does not fit, wherever it stands. -/
theorem encode_eq_error {e : Error} (h : s.encode = .error e) :
    ∃ before count after, s.code = before ++ .constants count :: after ∧ 65535 < count ∧
      (∀ n, .constants n ∈ before → n ≤ 65535) ∧
      e = ⟨.operandOutOfRange, some before.length, "constant array count"⟩ := by
  by_cases wide : ∃ i ∈ s.code, (!i.isEncodable) = true
  · obtain ⟨before, i, after, split, fits, wide⟩ := exists_first wide
    simp only [Bool.not_eq_true', Bool.not_eq_false'] at fits wide
    rw [encode_of_wide split fits wide] at h
    obtain ⟨count, rfl, large⟩ := isEncodable_eq_false_iff.mp wide
    exact ⟨before, count, after, split, large,
      fun n mem => isEncodable_constants.mp (fits _ mem), (Except.error.inj h).symm⟩
  · rw [encode_of_fits (by simpa using wide)] at h
    cases h

/-- What was loaded is saved as the same stream. -/
theorem encode_of_ofStream {stream : List UInt16} (made : ofStream stream constants = .ok s) :
    s.encode = .ok stream := by
  cases read : decode stream with
  | none =>
    rw [ofStream, read] at made
    cases made
  | some code =>
    rw [ofStream_of_decode read] at made
    obtain ⟨depth, -, new⟩ := new_of_ofCode made
    rw [encode_eq_ok_iff, new.code]
    exact encode_of_decode read

/-! ## Memory -/

theorem exists_assemble_of_ofCode (made : ofCode code constants = .ok s) :
    ∃ capacity admitted, assemble code constants capacity admitted = .ok s := by
  obtain ⟨depth, required, -⟩ := new_of_ofCode made
  rw [ofCode_of_ok required] at made
  exact ⟨depth, _, made⟩

/-- However a script is made, its parts are put together in the end. -/
theorem MadeFrom.exists_assemble (h : s.MadeFrom code constants) :
    ∃ capacity admitted, assemble code constants capacity admitted = .ok s := by
  cases h with
  | ofCode made => exact exists_assemble_of_ofCode made
  | ofCodeWithCapacity capacity made =>
    unfold Script.ofCodeWithCapacity at made
    split at made
    · split at made
      · exact ⟨capacity, _, made⟩
      · cases made
    · cases made
  | ofStream stream decoded made =>
    rw [ofStream_of_decode decoded] at made
    exact exists_assemble_of_ofCode made

/-- There is memory for the stack of a script that was made. -/
theorem MadeFrom.capacity_le (h : s.MadeFrom code constants) :
    s.stack.capacity ≤ Stack.greatestCapacity := by
  obtain ⟨capacity, admitted, made⟩ := h.exists_assemble
  have stack : s.stack.capacity = capacity := by
    rw [(new_of_assemble made).stack]
    exact Nat.zero_add capacity
  by_contra tooLarge
  rw [stack] at tooLarge
  rw [assemble_of_refused (if_neg tooLarge)] at made
  cases made

/-! ## Loading -/

/-- **What was saved can be loaded.** The script that is made holds the same instructions and
constants on a stack of the required depth. -/
theorem exists_reload (granted : s.stack.capacity ≤ Stack.greatestCapacity)
    (storable : IsStorable s.code) :
    ∃ t depth, ofStream (s.code.flatMap codes) s.constants = .ok t ∧
      requiredDepth s.code s.constants.length = .ok depth ∧ depth ≤ s.stack.capacity ∧
      t.New s.code s.constants ⟨[], depth⟩ := by
  obtain ⟨depth, fits, required⟩ := s.admitted
  have memory : Stack.ofCapacity? depth = some ⟨[], depth⟩ := if_pos (fits.trans granted)
  obtain ⟨t, made, new⟩ := assemble_of_granted memory ⟨depth, Nat.le_refl depth, required⟩
  refine ⟨t, depth, ?_, required, fits, new⟩
  rw [ofStream_of_decode (decode_flatMap_codes storable), ofCode_of_ok required, made]

end Script

open Script

/-- **Saving and loading preserve a script.**

* A script that was loaded is saved as the stream it was loaded from.
* Whatever has been asked of a script since it was made, it can be saved unless a count is wider
  than 16 bits, also one behind a `halt`; the error has the address of the first such count.
* Otherwise, if no unknown instruction hides a code of the set, what is saved can be loaded. The
  script that is loaded has the same instructions and constants, and a stack of the required depth,
  which is never deeper than before. From equal last results on, the two show the same. -/
theorem reload_preserves {γ : Type} [WordSource γ] :
    (∀ stream constants s, Script.ofStream stream constants = .ok s → s.encode = .ok stream) ∧
    ∀ (code : List Instruction) (constants : List Float) (made s : Script),
      made.MadeFrom code constants → made.Alike s →
        ((∃ e, s.encode = .error e) ↔ ∃ count, .constants count ∈ s.code ∧ 65535 < count) ∧
        (∀ e, s.encode = .error e →
          ∃ before count after, s.code = before ++ .constants count :: after ∧ 65535 < count ∧
            (∀ n, .constants n ∈ before → n ≤ 65535) ∧
            e = ⟨.operandOutOfRange, some before.length, "constant array count"⟩) ∧
        ((∀ count, .constants count ∈ s.code → count ≤ 65535) →
          (∀ code, .unknown code ∈ s.code → 136 < code) →
            ∃ stream t, s.encode = .ok stream ∧ Script.ofStream stream s.constants = .ok t ∧
              t.code = s.code ∧ t.constants = s.constants ∧
              requiredDepth s.code s.constants.length = .ok t.stack.capacity ∧
              t.stack.capacity ≤ s.stack.capacity ∧
              ∀ (x : Float) (source : γ) (requests : List (Request γ)),
                (t.withLastResult x).session source requests =
                  (s.withLastResult x).session source requests) := by
  refine ⟨fun stream constants s => encode_of_ofStream, fun code constants made s madeFrom alike => ?_⟩
  refine ⟨⟨?_, ?_⟩, fun e => encode_eq_error, fun counts unknowns => ?_⟩
  · rintro ⟨e, failed⟩
    obtain ⟨before, count, after, split, wide, -⟩ := encode_eq_error failed
    exact ⟨count, by simp [split], wide⟩
  · rintro ⟨count, mem, wide⟩
    cases saved : s.encode with
    | error e => exact ⟨e, rfl⟩
    | ok stream =>
      have fits := (encode_eq_some_iff.mp (encode_eq_ok_iff.mp saved)).2 _ mem
      exact absurd (isEncodable_constants.mp fits) (Nat.not_le.mpr wide)
  · have storable : IsStorable s.code := isStorable_iff.mpr ⟨counts, unknowns⟩
    have granted : s.stack.capacity ≤ Stack.greatestCapacity :=
      alike.capacity ▸ madeFrom.capacity_le
    obtain ⟨t, depth, loaded, required, fits, new⟩ := exists_reload granted storable
    have capacity : t.stack.capacity = depth := by
      rw [new.stack]
      exact Nat.zero_add depth
    refine ⟨_, t, encode_of_fits fun i mem => (storable i mem).1, loaded, new.code, new.constants,
      capacity ▸ required, capacity ▸ fits, fun x source requests => ?_⟩
    have same : (s.withLastResult x).SameButStack (t.withLastResult x) :=
      ⟨new.code, new.constants, rfl⟩
    exact session_congr same source requests

/-- A script with more room than it needs, and one with a count behind its end that is too wide. -/
theorem reload_preserves_roomy :
    (∃ s, Script.ofCodeWithCapacity [.constants 1, .halt, .unknown 300] [1.0] 9 = .ok s ∧
      ∃ stream t, s.encode = .ok stream ∧ Script.ofStream stream s.constants = .ok t ∧
        t.code = s.code ∧ t.stack.capacity ≤ s.stack.capacity) ∧
    ∃ s, Script.ofCode [.constants 1, .halt, .constants 65536] [1.0] = .ok s ∧
      ∃ e, s.encode = .error e := by
  have whole := (reload_preserves (γ := Stepper)).2
  constructor
  · let s : Script :=
      ⟨[.constants 1, .halt, .unknown 300], [1.0], ⟨[], 9⟩, 0.0, 1, by decide, rfl⟩
    have made : s.MadeFrom [.constants 1, .halt, .unknown 300] [1.0] :=
      .ofCodeWithCapacity 9 rfl
    have counts : ∀ count, .constants count ∈ s.code → count ≤ 65535 := by simp [s]
    have unknowns : ∀ code, .unknown code ∈ s.code → 136 < code := by simp [s]
    obtain ⟨stream, t, saved, loaded, code, -, -, capacity, -⟩ :=
      (whole _ _ s s made (.refl s)).2.2 counts unknowns
    exact ⟨s, rfl, stream, t, saved, loaded, code, capacity⟩
  · let s : Script :=
      ⟨[.constants 1, .halt, .constants 65536], [1.0], ⟨[], 1⟩, 0.0, 1, Nat.le_refl 1, rfl⟩
    have made : s.MadeFrom [.constants 1, .halt, .constants 65536] [1.0] := .ofCode rfl
    exact ⟨s, rfl, (whole _ _ s s made (.refl s)).1.mpr ⟨65536, by simp [s], by decide⟩⟩

end CabScript
