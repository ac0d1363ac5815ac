import CabScript.Instruction.Stream
import Mathlib.Data.Set.Function

/-!
# Raw streams and what they stand for

A raw code stands for one instruction, except that the code of a block takes the code behind it as
its operand, whatever that code would stand for elsewhere. So a stream is read from the front, one
instruction at a time (`stream_induction`), and what a code means depends on what stands before it.

Reading and writing are inverse to each other on the instructions that a stream can hold: an unknown
instruction that hides a code of the set is read back as something else.

## Main definitions

* `Instruction.isCanonical`: the instruction is no code of the set in disguise.

## Main statements

* `code_ofCode`, `ofCode_code`: single codes and single instructions.
* `decode_eq_some_iff`, `encode_eq_some_iff`: what is read, and what is written.
* `encode_decode_bijective`: the two are inverse on canonical instructions.
-/

namespace CabScript.Instruction

/-! ## Single codes -/

/-- Whether the instruction is no code of the set that is taken for unknown. -/
def isCanonical : Instruction → Bool
  | unknown code => 136 < code
  | _ => true

@[simp] theorem isCanonical_unknown {code : UInt16} :
    (unknown code).isCanonical = true ↔ 136 < code :=
  decide_eq_true_iff

/-- The count of a block fits a raw code if it has 16 bits. -/
@[simp] theorem isEncodable_constants {count : Nat} :
    (constants count).isEncodable = true ↔ count ≤ 65535 :=
  decide_eq_true_iff.trans Nat.lt_succ_iff

theorem length_catalogue : catalogue.length = 137 := by
  have size := congrArg List.length code_catalogue
  simpa using size

theorem isCanonical_catalogue : ∀ entry ∈ catalogue, entry.2.isCanonical = true := by
  decide +kernel

/-- A code is the code of the instruction it stands for. -/
theorem code_ofCode (code : UInt16) : (ofCode code).code = code := by
  rw [ofCode]
  split
  · rename_i word i entry
    have inside := (List.getElem?_eq_some_iff.mp entry).1
    rw [length_catalogue] at inside
    have listed := congrArg (·[code.toNat]?) code_catalogue
    simpa [entry, inside] using listed
  · rfl

/-- Only codes beyond the set stand for unknown instructions. -/
theorem isCanonical_ofCode (code : UInt16) : (ofCode code).isCanonical = true := by
  rw [ofCode]
  split
  · rename_i word i entry
    exact isCanonical_catalogue _ (List.mem_of_getElem? entry)
  · rename_i beyond
    rw [List.getElem?_eq_none_iff, length_catalogue] at beyond
    exact isCanonical_unknown.mpr (UInt16.lt_iff_toNat_lt.mpr beyond)

/-- The code of a block is the only one that stands for a block. -/
theorem ofCode_ne_constants {code : UInt16} (h : code ≠ blockCode) (count : Nat) :
    ofCode code ≠ constants count := by
  intro block
  have same := code_ofCode code
  rw [block] at same
  exact h same.symm

theorem ofCode_trainQuery (q : TrainQuery) : ofCode q.code = query (.train q) := by
  cases q with
  | doors side => rcases side with _ | _ | _ <;> rfl
  | doorTarget side => cases side <;> rfl
  | _ => rfl

theorem ofCode_query (q : Query) : ofCode q.code = query q := by
  cases q with
  | cameraOffset axis => cases axis <;> rfl
  | ownCar r => cases r <;> rfl
  | train q => exact ofCode_trainQuery q
  | unprovided u => cases u <;> rfl
  | _ => rfl

theorem ofCode_carQuery (q : CarQuery) : ofCode q.code = queryAt (.car q) := by
  cases q with
  | reading r => cases r <;> rfl
  | doors side => rcases side with _ | _ | _ <;> rfl
  | doorTarget side => cases side <;> rfl
  | _ => rfl

/-- The code of an instruction without an operand stands for this instruction. -/
theorem ofCode_code {i : Instruction} (canonical : i.isCanonical = true)
    (single : ∀ count, i ≠ constants count) : ofCode i.code = i := by
  cases i with
  | constants count => exact absurd rfl (single count)
  | unknown code =>
    have beyond : 136 < code.toNat := UInt16.lt_iff_toNat_lt.mp (isCanonical_unknown.mp canonical)
    have free : catalogue[code.toNat]? = none := by
      rw [List.getElem?_eq_none_iff, length_catalogue]
      exact beyond
    simp only [ofCode, Instruction.code, free]
  | unary op => cases op <;> rfl
  | binary op => cases op <;> rfl
  | ternary op => cases op <;> rfl
  | draw d => cases d <;> rfl
  | query q => exact ofCode_query q
  | queryAt q =>
    cases q with
    | car q => exact ofCode_carQuery q
    | panel => rfl
    | station q => cases q <;> rfl
  | _ => rfl

/-- An instruction other than a block is listed under its word, if it has a code of its own. -/
theorem mem_catalogue {i : Instruction} (known : ∀ code, i ≠ unknown code)
    (single : ∀ count, i ≠ constants count) : (i.text, i) ∈ catalogue := by
  have canonical : i.isCanonical = true := by
    cases i with
    | unknown code => exact absurd rfl (known code)
    | _ => rfl
  have listed := ofCode_code canonical single
  rw [ofCode] at listed
  split at listed
  · rename_i word j entry
    have text : i.text = word := by
      cases i with
      | unknown code => exact absurd rfl (known code)
      | constants count => exact absurd rfl (single count)
      | _ => simp only [Instruction.text, mnemonic, entry]
    rw [text, ← listed]
    exact List.mem_of_getElem? entry
  · exact absurd listed.symm (known _)

/-! ## Reading from the front -/

/-- A stream is read from the front: it is empty, or starts with a block and its operand, or with a
single code, or is cut short behind the code of a block. -/
@[elab_as_elim]
theorem stream_induction {motive : List UInt16 → Prop} (empty : motive [])
    (cutShort : motive [blockCode])
    (block : ∀ count rest, motive rest → motive (blockCode :: count :: rest))
    (single : ∀ code rest, code ≠ blockCode → motive rest → motive (code :: rest)) :
    ∀ stream, motive stream
  | [] => empty
  | [code] => by
    by_cases h : code = blockCode
    · exact h ▸ cutShort
    · exact single code [] h empty
  | code :: next :: rest => by
    by_cases h : code = blockCode
    · exact h ▸ block next rest (stream_induction empty cutShort block single rest)
    · exact single code (next :: rest) h
        (stream_induction empty cutShort block single (next :: rest))

theorem decodeAfter_eq (before : List Instruction) (stream : List UInt16) :
    decodeAfter before stream = (decode stream).map (before.reverse ++ ·) := by
  induction stream using stream_induction generalizing before with
  | empty => simp [decode, decodeAfter]
  | cutShort => rfl
  | block count rest ih =>
    simp only [decode, decodeAfter, if_pos]
    rw [ih, ih [_]]
    simp [Option.map_map, Function.comp_def]
  | single code rest h ih =>
    cases rest with
    | nil => simp [decode, decodeAfter, h]
    | cons next rest =>
      simp only [decode, decodeAfter, if_neg h]
      rw [ih, ih [_]]
      simp [Option.map_map, Function.comp_def]

@[simp] theorem decode_nil : decode [] = some [] := rfl

@[simp] theorem decode_cutShort : decode [blockCode] = none := rfl

@[simp] theorem decode_block (count : UInt16) (rest : List UInt16) :
    decode (blockCode :: count :: rest) =
      (decode rest).map (constants count.toNat :: ·) := by
  simp only [decode, decodeAfter, if_pos]
  exact decodeAfter_eq [_] rest

theorem decode_single {code : UInt16} (h : code ≠ blockCode) (rest : List UInt16) :
    decode (code :: rest) = (decode rest).map (ofCode code :: ·) := by
  cases rest with
  | nil => simp [decode, decodeAfter, h]
  | cons next rest =>
    simp only [decode, decodeAfter, if_neg h]
    exact decodeAfter_eq [_] (next :: rest)

/-! ## What is read and what is written -/

/-- What a stream can hold: operands that fit a code, and no code of the set in disguise. -/
def IsStorable (l : List Instruction) : Prop :=
  ∀ i ∈ l, i.isEncodable = true ∧ i.isCanonical = true

theorem codes_of_ne {i : Instruction} (single : ∀ count, i ≠ constants count) :
    i.codes = [i.code] := by
  cases i with
  | constants count => exact absurd rfl (single count)
  | _ => rfl

theorem code_ne_blockCode {i : Instruction} (canonical : i.isCanonical = true)
    (single : ∀ count, i ≠ constants count) : i.code ≠ blockCode := by
  intro block
  have same := ofCode_code canonical single
  rw [block] at same
  exact single 0 same.symm

/-- The codes of an instruction are read as this instruction, whatever stands behind them. -/
theorem decode_codes_append {i : Instruction} (encodable : i.isEncodable = true)
    (canonical : i.isCanonical = true) (rest : List UInt16) :
    decode (i.codes ++ rest) = (decode rest).map (i :: ·) := by
  by_cases block : ∃ count, i = constants count
  · obtain ⟨count, rfl⟩ := block
    have fits : count < UInt16.size := Nat.lt_succ_of_le (isEncodable_constants.mp encodable)
    show decode (blockCode :: .ofNat count :: rest) = _
    rw [decode_block, UInt16.toNat_ofNat_of_lt' fits]
  · have single : ∀ count, i ≠ constants count := by simpa using block
    rw [codes_of_ne single, List.singleton_append,
      decode_single (code_ne_blockCode canonical single), ofCode_code canonical single]

/-- What a stream can hold is read back from its codes. -/
theorem decode_flatMap_codes {l : List Instruction} (storable : IsStorable l) :
    decode (l.flatMap codes) = some l := by
  induction l with
  | nil => rfl
  | cons i rest ih =>
    obtain ⟨⟨encodable, canonical⟩, storable⟩ := List.forall_mem_cons.mp storable
    rw [List.flatMap_cons, decode_codes_append encodable canonical, ih storable, Option.map_some]

/-- What is read from a stream has just the codes of the stream. -/
theorem storable_of_decode {stream : List UInt16} {l : List Instruction}
    (h : decode stream = some l) : stream = l.flatMap codes ∧ IsStorable l := by
  induction stream using stream_induction generalizing l with
  | empty =>
    cases h
    exact ⟨rfl, by simp [IsStorable]⟩
  | cutShort => cases h
  | block count rest ih =>
    rw [decode_block] at h
    obtain ⟨l, read, rfl⟩ := Option.map_eq_some_iff.mp h
    obtain ⟨rfl, storable⟩ := ih read
    have fits := isEncodable_constants.mpr (Nat.le_of_lt_succ count.toNat_lt)
    refine ⟨?_, List.forall_mem_cons.mpr ⟨⟨fits, rfl⟩, storable⟩⟩
    rw [List.flatMap_cons, codes, UInt16.ofNat_toNat]
    rfl
  | single code rest hcode ih =>
    rw [decode_single hcode] at h
    obtain ⟨l, read, rfl⟩ := Option.map_eq_some_iff.mp h
    obtain ⟨rfl, storable⟩ := ih read
    have single := ofCode_ne_constants hcode
    refine ⟨?_, List.forall_mem_cons.mpr ⟨⟨?_, isCanonical_ofCode code⟩, storable⟩⟩
    · rw [List.flatMap_cons, codes_of_ne single, code_ofCode]
      rfl
    · cases h : ofCode code with
      | constants count => exact absurd h (single count)
      | _ => rfl

/-- **What is read from a stream** is what it holds the codes of. -/
theorem decode_eq_some_iff {stream : List UInt16} {l : List Instruction} :
    decode stream = some l ↔ stream = l.flatMap codes ∧ IsStorable l := by
  refine ⟨storable_of_decode, ?_⟩
  rintro ⟨rfl, storable⟩
  exact decode_flatMap_codes storable

/-- **What is written to a stream** are the codes, if every operand fits. -/
theorem encode_eq_some_iff {stream : List UInt16} {l : List Instruction} :
    encode l = some stream ↔ stream = l.flatMap codes ∧ ∀ i ∈ l, i.isEncodable = true := by
  rw [encode, Option.ite_none_right_eq_some, List.all_eq_true, and_comm, Option.some.injEq,
    eq_comm]

/-- What is read is written as it was. -/
theorem encode_of_decode {stream : List UInt16} {l : List Instruction}
    (h : decode stream = some l) : encode l = some stream := by
  obtain ⟨same, storable⟩ := decode_eq_some_iff.mp h
  exact encode_eq_some_iff.mpr ⟨same, fun i mem => (storable i mem).1⟩

/-- In words of single instructions: counts have 16 bits, and unknown codes are beyond the set. -/
theorem isStorable_iff {l : List Instruction} :
    IsStorable l ↔
      (∀ count, constants count ∈ l → count ≤ 65535) ∧ ∀ code, unknown code ∈ l → 136 < code := by
  constructor
  · intro storable
    exact ⟨fun count mem => isEncodable_constants.mp (storable _ mem).1,
      fun code mem => isCanonical_unknown.mp (storable _ mem).2⟩
  · rintro ⟨counts, unknowns⟩ i mem
    cases i with
    | constants count => exact ⟨isEncodable_constants.mpr (counts count mem), rfl⟩
    | unknown code => exact ⟨rfl, isCanonical_unknown.mpr (unknowns code mem)⟩
    | _ => exact ⟨rfl, rfl⟩

/-- **Reading and writing are inverse to each other.**

* What is read from a stream is written as the same stream.
* What is written is read back as it was if and only if no unknown instruction hides a code of the
  set; the code of a block is one of them, and would take the next code for its operand.
* So no two streams are read alike, and what can be read is just what has counts of 16 bits and no
  hidden codes. No two lists of this kind are written alike. -/
theorem encode_decode_bijective :
    (∀ stream l, decode stream = some l → encode l = some stream) ∧
    (∀ l stream, encode l = some stream →
      (decode stream = some l ↔ ∀ code, unknown code ∈ l → 136 < code)) ∧
    (∀ stream stream' l, decode stream = some l → decode stream' = some l → stream = stream') ∧
    (∀ l, (∃ stream, decode stream = some l) ↔
      (∀ code, unknown code ∈ l → 136 < code) ∧
        ∀ count, constants count ∈ l → count ≤ 65535) ∧
    Set.InjOn encode {l | ∃ stream, decode stream = some l} := by
  refine ⟨fun stream l => encode_of_decode, fun l stream written => ?_,
    fun stream stream' l read read' => ?_, fun l => ?_, ?_⟩
  · obtain ⟨same, encodable⟩ := encode_eq_some_iff.mp written
    rw [decode_eq_some_iff]
    constructor
    · rintro ⟨-, storable⟩
      exact (isStorable_iff.mp storable).2
    · intro unknowns
      have counts : ∀ count, constants count ∈ l → count ≤ 65535 := fun count mem =>
        isEncodable_constants.mp (encodable _ mem)
      exact ⟨same, isStorable_iff.mpr ⟨counts, unknowns⟩⟩
  · exact (decode_eq_some_iff.mp read).1.trans (decode_eq_some_iff.mp read').1.symm
  · rw [and_comm, ← isStorable_iff]
    constructor
    · rintro ⟨stream, read⟩
      exact (decode_eq_some_iff.mp read).2
    · exact fun storable => ⟨_, decode_flatMap_codes storable⟩
  · rintro l ⟨stream, read⟩ l' ⟨stream', read'⟩ same
    rw [encode_of_decode read, encode_of_decode read', Option.some.injEq] at same
    rw [same, read'] at read
    exact (Option.some.inj read).symm

/-- A block of which the count is the code of a block, and a code beyond the set. -/
theorem encode_decode_bijective_block :
    decode [2, 2, 137] = some [constants 2, unknown 137] ∧
      encode [constants 2, unknown 137] = some [2, 2, 137] := by
  have read : decode [2, 2, 137] = some [constants 2, unknown 137] := by decide
  exact ⟨read, encode_decode_bijective.1 _ _ read⟩

/-- The hidden code of a block takes the next code for its operand. -/
example : encode [unknown 2, halt] = some [2, 0] ∧ decode [2, 0] = some [constants 0] := by decide

end CabScript.Instruction
