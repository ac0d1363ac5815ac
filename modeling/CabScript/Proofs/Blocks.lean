import CabScript.Proofs.Disassembly

/-!
# A block is as good as single constants

A block of constants is a shorter way to write constants one by one. Whether code is admitted, how
deep its stack is, whether it yields a constant, how it is listed and what it does, is the same for
the code and for the code that is spelled out. If it is refused, it is so for the same cause, even
where the pool runs out in the middle of a block. Only turning the object around can tell the two
apart, as it looks for single constants.

## Main statements

* `isConstant_spelledOut`, `listing_spelledOut`: what is read off the code.
* `blocks_spell_out`: all of it.
-/

namespace CabScript

open Instruction

/-! ## What is read off the code -/

/-- A block is pure, and so are its constants. -/
theorem all_isPure_singly (i : Instruction) : i.singly.all isPure = i.isPure := by
  cases i with
  | constants count => simp [singly, isPure]
  | _ => simp [singly]

/-- Code is spelled out in pure instructions exactly if it is pure itself. -/
theorem all_isPure_spelledOut (code : List Instruction) :
    (spelledOut code).all isPure = code.all isPure := by
  induction code with
  | nil => rfl
  | cons i rest ih =>
    rw [spelledOut_cons, List.all_append, all_isPure_singly, ih, List.all_cons]

/-- Constants one by one are listed like a block, and like a block they are missing from the listing
where the pool has run out. -/
theorem tokens_replicate (count : Nat) (rest : List Instruction) (pool : List Float) :
    tokens (List.replicate count constant ++ rest) pool =
      (pool.take count).map .number ++ tokens rest (pool.drop count) := by
  induction count generalizing pool with
  | zero => rfl
  | succ count ih =>
    rw [List.replicate_succ, List.cons_append, tokens_cons, ih, List.drop_drop, Nat.add_comm count,
      List.take_add, List.map_append, List.append_assoc]
    rfl

/-- **Code that is spelled out has the same words in its listing,** also behind the end and where
the pool does not last. -/
theorem tokens_spelledOut (code : List Instruction) (pool : List Float) :
    tokens (spelledOut code) pool = tokens code pool := by
  induction code generalizing pool with
  | nil => rfl
  | cons i rest ih =>
    by_cases block : ∃ count, i = constants count
    · obtain ⟨count, rfl⟩ := block
      rw [spelledOut_cons, singly, tokens_replicate, ih, tokens_cons]
      rfl
    · rw [spelledOut_cons, singly_of_ne (by simpa using block), List.singleton_append, tokens_cons,
        tokens_cons, ih]

namespace Script

variable {s t : Script}

theorem isConstant_spelledOut (code : t.code = CabScript.spelledOut s.code) :
    t.isConstant = s.isConstant := by
  rw [isConstant, code, all_isPure_spelledOut, isConstant]

theorem listing_spelledOut (code : t.code = CabScript.spelledOut s.code)
    (constants : t.constants = s.constants) : t.listing = s.listing := by
  rw [listing, listing, code, constants, listingWith_eq_tokens, tokens_spelledOut,
    ← listingWith_eq_tokens]

/-- **Evaluations of a script that is spelled out** show the same from equal last results on, with
errors at the addresses where the instructions stand then. -/
theorem session_spelledOut {γ : Type} [WordSource γ] (code : t.code = CabScript.spelledOut s.code)
    (constants : t.constants = s.constants) (last : t.lastResult = s.lastResult)
    {requests : List (Request γ)} (unturned : ∀ offset, .shiftCarIndices offset ∉ requests)
    (source : γ) :
    t.session source requests =
      (s.session source requests).map (Observation.readdress (spelledAddress s.code)) := by
  rw [spelledAddress_eq]
  rw [spelledOut_eq_flatten] at code
  exact session_flatten (costsAs_singly_all s.code) code constants last unturned
    (fun v _ _ x => runsAs_singly_all ⟨v, x⟩ s.code) source

end Script

/-- **A block of constants is as good as the constants one by one.** Let the instructions and the
constants be counted by 64 bits together.

* Code makes a script exactly if it makes one when it is spelled out, and otherwise it is refused
  for the same cause.
* The two scripts have the same capacity and the same listing, and the one yields a constant exactly
  if the other does.
* From equal last results on they show the same in any evaluations, whatever is seen and drawn from:
  the same results, stacks and sources, and for an error the same cause at the address where the
  instruction stands when the code is spelled out. -/
theorem blocks_spell_out {γ : Type} [WordSource γ] (code : List Instruction)
    (constants : List Float) (small : code.length + constants.length < 2 ^ 64) :
    ((∃ s, Script.ofCode code constants = .ok s) ↔
      ∃ t, Script.ofCode (spelledOut code) constants = .ok t) ∧
    (∀ e, Script.ofCode code constants = .error e →
      ∃ e', Script.ofCode (spelledOut code) constants = .error e' ∧ e'.fault = e.fault) ∧
    ∀ s t, Script.ofCode code constants = .ok s →
      Script.ofCode (spelledOut code) constants = .ok t →
        t.stack.capacity = s.stack.capacity ∧ t.isConstant = s.isConstant ∧
        t.listing = s.listing ∧
        ∀ (x : Float) (source : γ) (requests : List (Request γ)),
          (∀ offset, .shiftCarIndices offset ∉ requests) →
            (t.withLastResult x).session source requests =
              ((s.withLastResult x).session source requests).map
                (Observation.readdress (spelledAddress code)) := by
  have costs := costsAs_singly_all code
  rw [spelledOut_eq_flatten]
  have refused {e : Error} (h : Script.ofCode code constants = .error e) :
      ∃ e', Script.ofCode (code.map singly).flatten constants = .error e' ∧ e'.fault = e.fault :=
    Script.exists_ofCode_flatten_error costs small h
  refine ⟨⟨?_, ?_⟩, fun e h => refused h, ?_⟩
  · rintro ⟨s, made⟩
    obtain ⟨t, made', -⟩ := Script.exists_ofCode_flatten costs made
    exact ⟨t, made'⟩
  · rintro ⟨t, made'⟩
    cases made : Script.ofCode code constants with
    | ok s => exact ⟨s, rfl⟩
    | error e =>
      obtain ⟨e', failed, -⟩ := refused made
      rw [made'] at failed
      cases failed
  · intro s t made made'
    obtain ⟨u, made'', capacity⟩ := Script.exists_ofCode_flatten costs made
    obtain rfl : t = u := Except.ok.inj (made'.symm.trans made'')
    obtain ⟨_, -, new⟩ := Script.new_of_ofCode made
    obtain ⟨_, -, new'⟩ := Script.new_of_ofCode made'
    have sameConstants : t.constants = s.constants := new'.constants.trans new.constants.symm
    have sameCode : t.code = spelledOut s.code := by
      rw [new'.code, new.code, spelledOut_eq_flatten]
    refine ⟨capacity, Script.isConstant_spelledOut sameCode,
      Script.listing_spelledOut sameCode sameConstants, fun x source requests unturned => ?_⟩
    have shown := Script.session_spelledOut (s := s.withLastResult x) (t := t.withLastResult x)
      sameCode sameConstants rfl unturned source
    rwa [show (s.withLastResult x).code = code from new.code] at shown

/-- A block of three values in front of what is fatal, and one that the pool cannot fill. -/
theorem blocks_spell_out_fatal :
    [constants 3, constants 0, ternary .choose, unknown 300].length + [1.0, 2.0, 3.0].length <
      2 ^ 64 ∧
    (∃ s t, Script.ofCode [constants 3, constants 0, ternary .choose, unknown 300]
        [1.0, 2.0, 3.0] = .ok s ∧
      Script.ofCode [constant, constant, constant, ternary .choose, unknown 300]
        [1.0, 2.0, 3.0] = .ok t ∧
      ∀ v, (t.withLastResult 5.0).session (Stepper.mk 0 1) [.evaluate v none] =
        ((s.withLastResult 5.0).session (Stepper.mk 0 1) [.evaluate v none]).map
          (Observation.readdress
            (spelledAddress [constants 3, constants 0, ternary .choose, unknown 300]))) ∧
    ∃ e, Script.ofCode [constant, constant, constant] [1.0] = .error e ∧
      e.fault = .poolMismatch := by
  let code : List Instruction := [constants 3, constants 0, ternary .choose, unknown 300]
  let s : Script := ⟨code, [1.0, 2.0, 3.0], ⟨[], 3⟩, 0.0, 3, Nat.le_refl 3, rfl⟩
  let t : Script := ⟨spelledOut code, [1.0, 2.0, 3.0], ⟨[], 3⟩, 0.0, 3, Nat.le_refl 3, rfl⟩
  have small : code.length + [1.0, 2.0, (3.0 : Float)].length < 2 ^ 64 := by decide
  obtain ⟨-, -, alike⟩ := blocks_spell_out (γ := Stepper) code [1.0, 2.0, 3.0] small
  obtain ⟨-, -, -, shown⟩ := alike s t rfl rfl
  obtain ⟨-, refused, -⟩ := blocks_spell_out (γ := Stepper) [constants 3] [1.0] (by decide)
  exact ⟨small, ⟨s, t, rfl, rfl, fun v => shown 5.0 _ [.evaluate v none] (by simp)⟩, refused _ rfl⟩

end CabScript
