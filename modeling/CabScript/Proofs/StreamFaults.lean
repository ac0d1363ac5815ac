import CabScript.Proofs.Outcome
import CabScript.Proofs.RawStream
import Mathlib.Algebra.Ring.Parity
import Mathlib.Data.List.DropRight

/-!
# What is wrong with a raw stream

A raw stream makes a script if no operand is missing at its end and if its instructions are
admitted. Whether an operand is missing can be seen from the end alone: in front of the last code
that is not the code of a block the reader may be anywhere, but behind it there are only codes of a
block, and these are read in pairs.

An error has the address of an instruction: the number of complete instructions in front of it. This
holds of what the check of the instructions finds, and of what stops an evaluation. The address of a
missing operand counts codes instead, and a block in front of it has two.

## Main definitions

* `blockTail`: how many codes of a block stand at the end of a stream.
* `Reads`: what is read of a stream from the front, and what is left.
* `Locates`: an address is that of an instruction of a kind.

## Main statements

* `decode_eq_none_iff`: when an operand is missing.
* `Reads.length_eq`: how many codes have been read.
* `cut_short_iff_odd_tail`: which streams make no script whatever the constants are.
* `stream_fault_addresses`: what the addresses of errors count.
-/

namespace CabScript

namespace Instruction

/-! ## The end of a stream -/

/-- How many codes of a block stand at the end of a stream, with no other code behind them. -/
def blockTail (stream : List UInt16) : Nat :=
  (stream.rtakeWhile (· == blockCode)).length

@[simp] theorem blockTail_nil : blockTail [] = 0 := rfl

/-- Where a stream has no other codes, the tail is all of it. -/
theorem blockTail_of_all {stream : List UInt16} (all : ∀ code ∈ stream, code = blockCode) :
    blockTail stream = stream.length := by
  rw [blockTail, List.rtakeWhile_eq_self_iff.mpr (by simpa using all)]

/-- Otherwise the first code is not in the tail. -/
theorem blockTail_cons {first : UInt16} {rest : List UInt16}
    (other : ∃ code ∈ first :: rest, code ≠ blockCode) :
    blockTail (first :: rest) = blockTail rest := by
  simp only [blockTail, List.rtakeWhile, List.length_reverse, List.reverse_cons]
  rw [List.takeWhile_append]
  split
  · rename_i whole
    -- all of the rest is in the tail, so the other code can only be the first
    have restAll : ∀ code ∈ rest, code = blockCode := by
      have all := List.takeWhile_eq_self_iff.mp ((List.takeWhile_prefix _).eq_of_length whole)
      simpa using all
    obtain ⟨code, mem, ne⟩ := other
    rcases List.mem_cons.mp mem with rfl | inRest
    · rw [whole, List.takeWhile_cons_of_neg (by simpa using ne), List.append_nil]
    · exact absurd (restAll code inRest) ne
  · rfl

/-- **An operand is missing** exactly if an odd number of codes of a block stand at the end. -/
theorem decode_eq_none_iff {stream : List UInt16} :
    decode stream = none ↔ Odd (blockTail stream) := by
  induction stream using stream_induction with
  | empty => simp
  | cutShort => exact iff_of_true rfl (by decide)
  | single code rest single ih =>
    rw [decode_single single, Option.map_eq_none_iff, ih,
      blockTail_cons ⟨code, List.mem_cons_self, single⟩]
  | block count rest ih =>
    rw [decode_block, Option.map_eq_none_iff, ih]
    by_cases all : ∀ code ∈ count :: rest, code = blockCode
    · -- the block and its count are both in the tail
      have restAll := (List.forall_mem_cons.mp all).2
      rw [blockTail_of_all restAll, blockTail_of_all (List.forall_mem_cons.mpr ⟨rfl, all⟩)]
      simp [Nat.odd_add]
    · -- neither of them is
      push Not at all
      obtain ⟨code, mem, ne⟩ := all
      rw [blockTail_cons ⟨code, List.mem_cons_of_mem _ mem, ne⟩, blockTail_cons ⟨code, mem, ne⟩]

/-! ## Complete instructions in front -/

/-- Reading a stream from the front gives complete instructions and leaves the rest. -/
inductive Reads : List UInt16 → List Instruction → List UInt16 → Prop where
  | nothing (stream : List UInt16) : Reads stream [] stream
  | block (count : UInt16) {stream rest : List UInt16} {l : List Instruction} :
    Reads stream l rest → Reads (blockCode :: count :: stream) (constants count.toNat :: l) rest
  | single {code : UInt16} (single : code ≠ blockCode) {stream rest : List UInt16}
    {l : List Instruction} : Reads stream l rest → Reads (code :: stream) (ofCode code :: l) rest

/-- Whether the instruction is a block, which takes two codes. -/
def isBlock : Instruction → Bool
  | constants _ => true
  | _ => false

theorem isBlock_ofCode {code : UInt16} (single : code ≠ blockCode) :
    ¬ (ofCode code).isBlock = true := by
  cases h : ofCode code with
  | constants count => exact absurd h (ofCode_ne_constants single count)
  | _ => exact Bool.false_ne_true

/-- No instructions are blocks if none of them is one of any length. -/
theorem countP_isBlock_eq_zero_iff {l : List Instruction} :
    l.countP isBlock = 0 ↔ ∀ count, constants count ∉ l := by
  rw [List.countP_eq_zero]
  constructor
  · intro noBlock count mem
    exact noBlock _ mem rfl
  · intro absent i mem block
    cases i with
    | constants count => exact absent count mem
    | _ => cases block

namespace Reads

variable {stream rest : List UInt16} {l m : List Instruction}

/-- Every instruction takes one code, and a block one more. -/
theorem length_eq (h : Reads stream l rest) :
    stream.length = l.length + l.countP isBlock + rest.length := by
  induction h with
  | nothing => simp
  | block count _ ih =>
    have counted : isBlock (constants count.toNat) = true := rfl
    simp only [List.length_cons, ih, List.countP_cons_of_pos counted]
    omega
  | single single _ ih =>
    simp only [List.length_cons, ih, List.countP_cons_of_neg (isBlock_ofCode single)]
    omega

/-- Where instructions stand in front of others, they are read first. -/
theorem exists_of_decode (read : decode stream = some (l ++ m)) :
    ∃ rest, Reads stream l rest ∧ decode rest = some m := by
  induction l generalizing stream with
  | nil => exact ⟨stream, .nothing stream, read⟩
  | cons i l ih =>
    cases stream using stream_induction with
    | empty | cutShort => cases read
    | block count stream =>
      rw [decode_block] at read
      obtain ⟨_, read, same⟩ := Option.map_eq_some_iff.mp read
      obtain ⟨rfl, rfl⟩ := List.cons.inj same
      obtain ⟨rest, reads, left⟩ := ih read
      exact ⟨rest, .block count reads, left⟩
    | single code stream single =>
      rw [decode_single single] at read
      obtain ⟨_, read, same⟩ := Option.map_eq_some_iff.mp read
      obtain ⟨rfl, rfl⟩ := List.cons.inj same
      obtain ⟨rest, reads, left⟩ := ih read
      exact ⟨rest, .single single reads, left⟩

/-- Where an operand is missing, all in front of the last code is complete. -/
theorem exists_of_decode_eq_none (missing : decode stream = none) :
    ∃ l, Reads stream l [blockCode] := by
  induction stream using stream_induction with
  | empty => cases missing
  | cutShort => exact ⟨[], .nothing _⟩
  | block count rest ih =>
    rw [decode_block, Option.map_eq_none_iff] at missing
    obtain ⟨l, reads⟩ := ih missing
    exact ⟨_, .block count reads⟩
  | single code rest single ih =>
    rw [decode_single single, Option.map_eq_none_iff] at missing
    obtain ⟨l, reads⟩ := ih missing
    exact ⟨_, .single single reads⟩

end Reads

end Instruction

open Instruction

/-- An address in a stream is the number of complete instructions in front of one of a kind. The
kind may depend on those in front, none of which ends the script. -/
def Locates (stream : List UInt16) (address : Option Nat)
    (kind : List Instruction → Instruction → Prop) : Prop :=
  ∃ before i rest, Reads stream (before ++ [i]) rest ∧ halt ∉ before ∧
    address = some before.length ∧ kind before i

/-! ## What the check finds -/

section Check

variable {code before after : List Instruction} {i : Instruction} {poolSize : Nat} {e : Error}

/-- What refuses an instruction: the constants, the values, or the bound on the depth. -/
theorem Budget.spend_eq_error_cases {b : Budget} {address : Nat}
    (refused : b.spend address i = .error e) :
    e.address = some address ∧
      (e.fault = .poolMismatch ∧ b.unread < i.poolUse ∨
        e.fault = .stackUnderflow ∧ b.depth < i.pops ∨ e.fault = .stackOverflow) := by
  unfold spend at refused
  split at refused
  · rename_i pool
    cases refused
    exact ⟨rfl, .inl ⟨rfl, pool⟩⟩
  split at refused
  · rename_i stack
    cases refused
    exact ⟨rfl, .inr (.inl ⟨rfl, stack⟩)⟩
  dsimp only at refused
  split at refused
  · cases refused
    exact ⟨rfl, .inr (.inr rfl)⟩
  · cases refused

/-- Where the check fails, it has counted the instructions in front of one that it refuses. -/
theorem Budget.exists_of_spendAll_error {address : Nat} {b : Budget}
    (failed : spendAll address code b = .error e) :
    ∃ before i after mid, code = before ++ i :: after ∧ spendAll address before b = .ok mid ∧
      mid.spend (address + before.length) i = .error e := by
  induction code generalizing address b with
  | nil => cases failed
  | cons i rest ih =>
    rw [spendAll] at failed
    split at failed
    · rename_i next step
      obtain ⟨before, j, after, mid, rfl, spent, refused⟩ := ih failed
      refine ⟨i :: before, j, after, mid, rfl, ?_, ?_⟩
      · rw [spendAll, step]
        exact spent
      · rwa [List.length_cons, Nat.add_comm before.length, ← Nat.add_assoc]
    · rename_i refused
      cases failed
      exact ⟨[], i, rest, b, rfl, rfl, refused⟩

/-- **What the check blames:** an instruction that runs, by the sums of the effects of those in
front, or the end of the part that runs. -/
theorem requiredDepth_eq_error_cases (refused : requiredDepth code poolSize = .error e) :
    (∃ before i after, live code = before ++ i :: after ∧ e.address = some before.length ∧
      (e.fault = .poolMismatch ∧ poolSize - totalPoolUse before < i.poolUse ∨
        e.fault = .stackUnderflow ∧ height before < i.pops ∨ e.fault = .stackOverflow)) ∨
    e.fault = .unbalancedStack ∧ e.address = some (live code).length ∧ height (live code) ≠ 1 := by
  rw [requiredDepth_eq] at refused
  split at refused
  · rename_i b spent
    have depth := ((Tallies.start poolSize).spendAll spent).depth
    unfold Budget.close at refused
    split at refused
    · cases refused
    · rename_i unbalanced
      cases refused
      refine .inr ⟨rfl, rfl, fun balanced => unbalanced ?_⟩
      rw [List.nil_append, balanced] at depth
      exact_mod_cast depth
  · rename_i failed
    cases refused
    obtain ⟨before, i, after, mid, split, spent, refused⟩ := Budget.exists_of_spendAll_error failed
    have tallies := (Tallies.start poolSize).spendAll spent
    have depth := tallies.depth
    have unread := tallies.unread
    rw [List.nil_append] at depth unread
    rw [Nat.zero_add] at refused
    obtain ⟨address, cause⟩ := Budget.spend_eq_error_cases refused
    refine .inl ⟨before, i, after, split, address, ?_⟩
    rcases cause with ⟨pool, short⟩ | ⟨stack, short⟩ | limit
    · exact .inl ⟨pool, by omega⟩
    · exact .inr (.inl ⟨stack, by omega⟩)
    · exact .inr (.inr limit)

/-- A list of instructions makes no script if it is not admitted, or if its stack does not fit the
memory. -/
theorem Script.ofCode_eq_error_cases {constants : List Float}
    (refused : Script.ofCode code constants = .error e) :
    requiredDepth code constants.length = .error e ∨ e.fault = .stackOverflow := by
  cases required : requiredDepth code constants.length with
  | error e' =>
    rw [Script.ofCode_of_error required] at refused
    exact .inl (congrArg Except.error (Except.error.inj refused))
  | ok depth =>
    rw [Script.ofCode_of_ok required] at refused
    cases granted : Stack.ofCapacity? depth with
    | some stack =>
      obtain ⟨s, made, -⟩ :=
        Script.assemble_of_granted granted ⟨depth, Nat.le_refl depth, required⟩
      rw [made] at refused
      cases refused
    | none =>
      rw [Script.assemble_of_refused granted] at refused
      cases refused
      exact .inr rfl

/-! ## Where it is found -/

/-- What runs of a list is all of it, or stands in front of a `halt`. -/
theorem eq_live_or (code : List Instruction) :
    code = live code ∨ ∃ rest, code = live code ++ halt :: rest := by
  induction code with
  | nil => exact .inl rfl
  | cons i rest ih =>
    by_cases ends : i = halt
    · subst ends
      exact .inr ⟨rest, by rw [live_halt, List.nil_append]⟩
    · rw [live_cons ends]
      rcases ih with whole | ⟨behind, split⟩
      · exact .inl (congrArg (i :: ·) whole)
      · exact .inr ⟨behind, congrArg (i :: ·) split⟩

/-- The number of instructions in front of one that runs is its address in the stream. -/
theorem Locates.of_live {stream : List UInt16} {kind : List Instruction → Instruction → Prop}
    (read : decode stream = some code) (split : live code = before ++ i :: after)
    (is : kind before i) : Locates stream (some before.length) kind := by
  obtain ⟨rest, whole⟩ := live_prefix code
  have noHalt := halt_notMem_live code
  rw [← whole, split, List.append_cons, List.append_assoc] at read
  obtain ⟨left, reads, -⟩ := Reads.exists_of_decode read
  exact ⟨before, i, left, reads, fun mem => noHalt (by simp [split, mem]), rfl, is⟩

/-- The part of a stream that runs is read up to its end, or up to a `halt`. -/
theorem reads_live {stream : List UInt16} (read : decode stream = some code) :
    Reads stream (live code) [] ∨ ∃ rest, Reads stream (live code ++ [halt]) rest := by
  rcases eq_live_or code with whole | ⟨behind, split⟩
  · left
    rw [← List.append_nil code] at read
    obtain ⟨rest, reads, left⟩ := Reads.exists_of_decode read
    rw [decode_eq_some_iff.mp left |>.1] at reads
    rwa [← whole]
  · right
    rw [split, List.append_cons] at read
    obtain ⟨rest, reads, -⟩ := Reads.exists_of_decode read
    exact ⟨rest, reads⟩

/-- A fatal instruction has its address. -/
theorem address_of_fatalError {address : Nat} (fatal : i.fatalError? address = some e) :
    e.address = some address := by
  cases i <;> cases fatal <;> rfl

/-- **What is refused of a stream that can be read** is found at the address of an instruction, or
at the end of the part that runs. -/
theorem located_of_ofCode_error {stream : List UInt16} {constants : List Float}
    (read : decode stream = some code) (refused : Script.ofCode code constants = .error e) :
    (e.fault = .poolMismatch → Locates stream e.address fun before i =>
      constants.length - totalPoolUse before < i.poolUse) ∧
    (e.fault = .stackUnderflow → Locates stream e.address fun before i => height before < i.pops) ∧
    (e.fault = .unbalancedStack → ∃ before, halt ∉ before ∧ height before ≠ 1 ∧
      (Reads stream before [] ∨ ∃ rest, Reads stream (before ++ [halt]) rest) ∧
      e.address = some before.length) ∧
    e.fault ≠ .missingOperand := by
  rcases Script.ofCode_eq_error_cases refused with notAdmitted | memory
  · rcases requiredDepth_eq_error_cases notAdmitted with
      ⟨before, i, after, split, address, cause⟩ | ⟨fault, address, unbalanced⟩
    · rw [address]
      rcases cause with ⟨fault, short⟩ | ⟨fault, short⟩ | fault
      · exact ⟨fun _ => .of_live read split short, by simp [fault], by simp [fault],
          by simp [fault]⟩
      · exact ⟨by simp [fault], fun _ => .of_live read split short, by simp [fault],
          by simp [fault]⟩
      · simp [fault]
    · refine ⟨by simp [fault], by simp [fault], fun _ => ?_, by simp [fault]⟩
      exact ⟨live code, halt_notMem_live code, unbalanced, reads_live read, address⟩
  · simp [memory]

/-- **What stops an evaluation** is an instruction that lets no evaluation go on, at its address. -/
theorem located_of_evaluate_error {γ : Type} [WordSource γ] {stream : List UInt16}
    {constants : List Float} {s : Script} (read : decode stream = some code)
    (made : Script.ofCode code constants = .ok s) {v : Viewpoint} {source : γ}
    (failed : (s.evaluate v source).outcome = .error (.error e)) :
    Locates stream e.address fun _ i => i.isFatal = true := by
  obtain ⟨depth, -, new⟩ := Script.new_of_ofCode made
  rw [← new.code] at read
  by_cases fatal : ∃ i ∈ live s.code, i.isFatal = true
  · obtain ⟨before, i, after, split, goesOn, fatal⟩ := exists_first_fatal fatal
    obtain ⟨e', he'⟩ := exists_fatalError fatal before.length
    obtain ⟨outcome, -⟩ := s.evaluate_of_fatal v source split goesOn he'
    rw [outcome] at failed
    cases failed
    rw [address_of_fatalError he']
    exact .of_live read split fatal
  · have goesOn : ∀ i ∈ live s.code, i.isFatal = false := by simpa using fatal
    obtain ⟨x, outcome, -⟩ := s.evaluate_of_goesOn v source goesOn
    rw [outcome] at failed
    cases failed

end Check

/-! ## Streams that are refused -/

/-- **Streams that are cut short.**

* An operand is missing exactly if the longest run of codes of a block at the end has odd length.
* Such a stream is not empty, and makes no script, with any constants; the address of the error is
  the position of its last code.
* Any other stream, the empty one included, is read as a list of instructions, and makes the script
  that these make. -/
theorem cut_short_iff_odd_tail :
    (∀ stream, decode stream = none ↔ Odd (blockTail stream)) ∧
    (∀ stream, Odd (blockTail stream) → ∃ last, stream.length = last + 1 ∧
      ∀ constants, Script.ofStream stream constants =
        .error ⟨.missingOperand, some last, "constant array without a count"⟩) ∧
    (∀ stream, ¬ Odd (blockTail stream) → ∃ code, decode stream = some code ∧
      ∀ constants, Script.ofStream stream constants = Script.ofCode code constants) ∧
    ∀ constants, Script.ofStream [] constants = Script.ofCode [] constants := by
  refine ⟨fun stream => decode_eq_none_iff, fun stream odd => ?_, fun stream even => ?_,
    fun constants => Script.ofStream_of_decode decode_nil⟩
  · have missing := decode_eq_none_iff.mpr odd
    obtain ⟨before, reads⟩ := Reads.exists_of_decode_eq_none missing
    refine ⟨before.length + before.countP isBlock, reads.length_eq, fun constants => ?_⟩
    rw [Script.ofStream, missing, reads.length_eq]
    rfl
  · obtain ⟨code, read⟩ := Option.ne_none_iff_exists'.mp (mt decode_eq_none_iff.mp even)
    exact ⟨code, read, fun constants => Script.ofStream_of_decode read⟩

/-- A block whose count is the code of a block, and two codes of a block behind another code, of
which the second is a count. -/
theorem cut_short_iff_odd_tail_counts :
    decode [2, 2, 2] = none ∧ Odd (blockTail [2, 2, 2]) ∧ ¬ Odd (blockTail [2, 7, 2, 2]) ∧
      Script.ofStream [2, 2, 2] [1.0] =
        .error ⟨.missingOperand, some 2, "constant array without a count"⟩ ∧
      ∃ code, decode [2, 7, 2, 2] = some code ∧
        Script.ofStream [2, 7, 2, 2] [] = Script.ofCode code [] := by
  obtain ⟨cut, refused, accepted, -⟩ := cut_short_iff_odd_tail
  have odd : Odd (blockTail [2, 2, 2]) := by decide
  have even : ¬ Odd (blockTail [2, 7, 2, 2]) := by decide
  obtain ⟨last, length, missing⟩ := refused _ odd
  obtain rfl : 2 = last := Nat.succ.inj length
  obtain ⟨code, read, made⟩ := accepted _ even
  exact ⟨(cut _).mpr odd, odd, even, missing _, code, read, made _⟩

/-- **What the addresses of errors count.**

* The address of an instruction that the check blames on the constants or on the values is the
  number of complete instructions in front of it, and so is that of the end if the stack is
  unbalanced there.
* The address of an instruction that stops an evaluation is this number as well.
* The address of a missing operand is the number of codes in front of the last one: the number of
  complete instructions and, once more, of the blocks among them. It is the number of instructions
  only if none of them is a block. -/
theorem stream_fault_addresses {γ : Type} [WordSource γ] (stream : List UInt16)
    (constants : List Float) :
    (∀ e, Script.ofStream stream constants = .error e →
      (e.fault = .poolMismatch → Locates stream e.address fun before i =>
        constants.length - totalPoolUse before < i.poolUse) ∧
      (e.fault = .stackUnderflow → Locates stream e.address fun before i =>
        height before < i.pops) ∧
      (e.fault = .unbalancedStack → ∃ before, halt ∉ before ∧ height before ≠ 1 ∧
        (Reads stream before [] ∨ ∃ rest, Reads stream (before ++ [halt]) rest) ∧
        e.address = some before.length) ∧
      (e.fault = .missingOperand → ∃ before, Reads stream before [blockCode] ∧
        e.address = some (before.length + before.countP isBlock) ∧
        (e.address = some before.length ↔ ∀ count, .constants count ∉ before))) ∧
    (∀ s, Script.ofStream stream constants = .ok s → ∀ (v : Viewpoint) (source : γ) (e : Error),
      (s.evaluate v source).outcome = .error (.error e) →
        Locates stream e.address fun _ i => i.isFatal = true) := by
  cases read : decode stream with
  | none =>
    obtain ⟨before, reads⟩ := Reads.exists_of_decode_eq_none read
    have missing : Script.ofStream stream constants =
        .error ⟨.missingOperand, some (before.length + before.countP isBlock),
          "constant array without a count"⟩ := by
      rw [Script.ofStream, read, reads.length_eq]
      rfl
    refine ⟨fun e refused => ?_, fun s made => ?_⟩
    · rw [missing] at refused
      cases refused
      refine ⟨by simp, by simp, by simp, fun _ => ⟨before, reads, rfl, ?_⟩⟩
      rw [← countP_isBlock_eq_zero_iff]
      simp
    · rw [missing] at made
      cases made
  | some code =>
    rw [Script.ofStream_of_decode read]
    refine ⟨fun e refused => ?_, fun s made v source e failed =>
      located_of_evaluate_error read made failed⟩
    obtain ⟨pool, stack, unbalanced, notMissing⟩ := located_of_ofCode_error read refused
    exact ⟨pool, stack, unbalanced, fun missing => absurd missing notMissing⟩

/-- An addition that finds one value behind a block, and an unknown code behind a block: both are at
address `1`, in front of which there are two codes. -/
theorem stream_fault_addresses_behind_block :
    Script.ofStream [2, 1, 7] [1.0] = .error ⟨.stackUnderflow, some 1, ""⟩ ∧
      (Locates [2, 1, 7] (some 1) fun before i => height before < i.pops) ∧
      ∃ s, Script.ofStream [2, 1, 300] [1.0] = .ok s ∧
        (s.evaluate (.ofWorld {}) (Stepper.mk 0 1)).outcome =
          .error (.error ⟨.unknownInstruction, some 1, ""⟩) ∧
        Locates [2, 1, 300] (some 1) fun _ i => i.isFatal = true := by
  have refused : Script.ofStream [2, 1, 7] [1.0] = .error ⟨.stackUnderflow, some 1, ""⟩ := rfl
  obtain ⟨check, -⟩ := stream_fault_addresses (γ := Stepper) [2, 1, 7] [1.0]
  obtain ⟨-, run⟩ := stream_fault_addresses (γ := Stepper) [2, 1, 300] [1.0]
  let s : Script := ⟨[.constants 1, .unknown 300], [1.0], ⟨[], 1⟩, 0.0, 1, Nat.le_refl 1, rfl⟩
  have made : Script.ofStream [2, 1, 300] [1.0] = .ok s := rfl
  have stopped : (s.evaluate (.ofWorld {}) (Stepper.mk 0 1)).outcome =
      .error (.error ⟨.unknownInstruction, some 1, ""⟩) := by
    have split : live s.code = [.constants 1] ++ .unknown 300 :: [] := rfl
    exact (s.evaluate_of_fatal (.ofWorld {}) (Stepper.mk 0 1) split (by decide) rfl).1
  exact ⟨refused, (check _ refused).2.1 rfl, s, made, stopped, run s made _ _ _ stopped⟩

/-- In front of the missing operand there is one instruction, and its address is `2`. -/
theorem missing_operand_address_counts_codes :
    Reads [2, 0, 2] [.constants 0] [blockCode] ∧
      Script.ofStream [2, 0, 2] [] =
        .error ⟨.missingOperand, some 2, "constant array without a count"⟩ ∧
      some 2 ≠ some [Instruction.constants 0].length :=
  ⟨.block 0 (.nothing [2]), rfl, by decide⟩

end CabScript
