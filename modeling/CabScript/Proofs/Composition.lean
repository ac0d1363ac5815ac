import CabScript.Proofs.Fragment

/-!
# Postfix code composes

A compiler puts the code of an operator behind the code of its operands. The theorems of this module
are what it relies on: the operands are evaluated one after the other, each as if it were a script
of its own, and the operator is applied to their results. In particular a choice evaluates both of
its branches.

## Main definitions

* `Instruction.binaryOperator?`, `Instruction.ternaryOperator?`: what operators compute.
* `Fragment.evaluateAll`: operands evaluated one after the other.

## Main statements

* `Fragment.run_codeAll`: fragments one after the other.
* `Fragment.operation_composes`: an operator behind any number of operands.
* `postfix_composes`: the operators that there are.
-/

namespace CabScript

open Instruction

/-! ## Operators -/

/-- What an instruction computes that takes two values and leaves one. -/
def Instruction.binaryOperator? {γ : Type} [WordSource γ] :
    Instruction → Option (Float → Float → γ → Float × γ)
  | binary op => some fun a b source => (op.apply a b, source)
  | draw d => some d.apply
  | _ => none

/-- What an instruction computes that takes three values and leaves one. -/
def Instruction.ternaryOperator? {γ : Type} :
    Instruction → Option (Float → Float → Float → γ → Float × γ)
  | ternary op => some fun a b c source => (op.apply a b c, source)
  | _ => none

theorem exists_binaryOperator {γ : Type} [WordSource γ] {i : Instruction} (takes : i.pops = 2)
    (leaves : i.pushes = 1) : ∃ op, i.binaryOperator? (γ := γ) = some op ∧
      ∀ (setting : Setting) (a b : Float) (source : γ),
        i.yield setting [b, a] [] source = ([(op a b source).1], (op a b source).2) := by
  cases i with
  | binary | draw => exact ⟨_, rfl, fun _ _ _ _ => rfl⟩
  | swap => cases leaves
  | _ => cases takes

theorem exists_ternaryOperator {γ : Type} [WordSource γ] {i : Instruction} (takes : i.pops = 3) :
    ∃ op, i.ternaryOperator? (γ := γ) = some op ∧
      ∀ (setting : Setting) (a b c : Float) (source : γ),
        i.yield setting [c, b, a] [] source = ([(op a b c source).1], (op a b c source).2) := by
  cases i with
  | ternary => exact ⟨_, rfl, fun _ _ _ _ _ => rfl⟩
  | _ => cases takes

theorem Instruction.pops_le (i : Instruction) : i.pops ≤ 3 := by
  cases i <;> simp [pops]

/-- What takes values takes no constants, and goes on. -/
theorem operator_of_pops {i : Instruction} (takes : 0 < i.pops) :
    i.poolUse = 0 ∧ i.isFatal = false ∧ i ≠ halt := by
  cases i <;> simp_all [pops, poolUse, isFatal]

/-! ## Fragments one after the other -/

namespace Fragment

/-- The instructions of fragments, one after the other. -/
def codeAll (fs : List Fragment) : List Instruction :=
  fs.flatMap code

/-- The constants of fragments, one after the other. -/
def poolAll (fs : List Fragment) : List Float :=
  fs.flatMap pool

/-- The depth that fragments need: each stands on the values of those before it. -/
def depthAll : List Fragment → Nat
  | [] => 0
  | f :: fs => max f.depth (1 + depthAll fs)

/-- The values of fragments, each evaluated by itself with the source as the one before left it.
The first that fails ends the evaluation, with an address that counts from the first of all. -/
def evaluateAll {γ : Type} [WordSource γ] (previous : Float) (v : Viewpoint) (address : Nat) :
    List Fragment → γ → Except Failure (List Float × γ)
  | [], source => .ok ([], source)
  | f :: fs, source =>
    match (f.evaluate previous v source).outcome with
    | .ok x =>
      match evaluateAll previous v (address + f.code.length) fs
          (f.evaluate previous v source).source with
      | .ok (xs, source) => .ok (x :: xs, source)
      | .error failure => .error failure
    | .error failure => .error (failure.shift address)

theorem length_le_depthAll (fs : List Fragment) : fs.length ≤ depthAll fs := by
  induction fs with
  | nil => exact Nat.le_refl 0
  | cons f fs ih =>
    rw [List.length_cons, depthAll]
    omega

/-- Fragments that are not all too many stay within the bound on the depth. -/
theorem depthAll_le (fs : List Fragment) : depthAll fs ≤ fs.length + Stack.greatestCapacity := by
  induction fs with
  | nil => exact Nat.zero_le _
  | cons f fs ih =>
    have := f.depth_le
    rw [List.length_cons, depthAll]
    omega

theorem halt_notMem_codeAll (fs : List Fragment) : halt ∉ codeAll fs := by
  simp only [codeAll, List.mem_flatMap, not_exists, not_and]
  exact fun f _ => f.noHalt

/-- The check over fragments counts one value for each. -/
theorem spendAll_codeAll (fs : List Fragment) {b : Budget} (pool : (poolAll fs).length ≤ b.unread)
    (limit : b.depth + depthAll fs < Budget.depthLimit) (deep : b.depth ≤ b.deepest)
    (address : Nat) :
    ∃ unread, Budget.spendAll address (codeAll fs) b =
      .ok ⟨b.depth + fs.length, unread, max b.deepest (b.depth + depthAll fs)⟩ := by
  induction fs generalizing b address with
  | nil => exact ⟨b.unread, by simp [codeAll, depthAll, Budget.spendAll, deep]⟩
  | cons f fs ih =>
    simp only [poolAll, List.flatMap_cons, List.length_append] at pool
    simp only [depthAll] at limit ⊢
    have := f.totalPoolUse_le
    have := f.depth_pos
    have behind : (poolAll fs).length ≤ b.unread - totalPoolUse f.code := by
      rw [poolAll]
      omega
    rw [codeAll, List.flatMap_cons, Budget.spendAll_append,
      f.spendAll_at (by omega) (by omega) deep]
    obtain ⟨unread, spent⟩ := ih
      (b := ⟨b.depth + 1, b.unread - totalPoolUse f.code, max b.deepest (b.depth + f.depth)⟩)
      behind (by simp only; omega) (by simp only; omega) (address + f.code.length)
    refine ⟨unread, spent.trans ?_⟩
    simp only [List.length_cons, Except.ok.injEq, Budget.mk.injEq, true_and]
    omega

/-- The check over an operator behind fragments finds the depth of the fragments. -/
theorem requiredDepth_operation {fs : List Fragment} {i : Instruction} (takes : i.pops = fs.length)
    (leaves : i.pushes = 1) (nonempty : 0 < fs.length) (limit : depthAll fs < Budget.depthLimit) :
    requiredDepth (codeAll fs ++ [i]) (poolAll fs).length = .ok (depthAll fs) := by
  obtain ⟨noPool, -, hi⟩ := operator_of_pops (takes ▸ nonempty)
  obtain ⟨unread, spent⟩ := spendAll_codeAll fs (b := ⟨0, (poolAll fs).length, 0⟩) (Nat.le_refl _)
    (by simpa using limit) (Nat.le_refl 0) 0
  have deep := length_le_depthAll fs
  have last : Budget.spend ⟨0 + fs.length, unread, max 0 (0 + depthAll fs)⟩
      (0 + (codeAll fs).length) i = .ok ⟨1, unread, depthAll fs⟩ := by
    refine Budget.spend_eq_ok_iff.mpr ⟨by omega, by simp only; omega, ?_, ?_⟩
    · simp only [Budget.after, takes, leaves, Budget.depthLimit, UInt64.size]
      omega
    · simp only [Budget.after, takes, leaves, noPool, Budget.mk.injEq]
      omega
  refine requiredDepth_eq_ok_iff.mpr ⟨⟨1, unread, depthAll fs⟩, ?_, rfl, rfl⟩
  rw [live_eq_self (by simp [halt_notMem_codeAll, Ne.symm hi]), Budget.spendAll_append, spent]
  simp only [Budget.spendAll]
  rw [last]

variable {γ : Type} [WordSource γ] (previous : Float) (v : Viewpoint)

/-- **Fragments in their place** leave what they yield one after the other, or stop what stands
behind them with the first error. -/
theorem run_codeAll (fs : List Fragment) (usesUp : ∀ f ∈ fs.dropLast, f.UsesPoolUp) {room : Nat}
    (fits : depthAll fs ≤ room) (base rest : List Float) (address : Nat) (m : List Instruction)
    (source : γ) :
    match evaluateAll previous v address fs source with
    | .ok (xs, after) => xs.length = fs.length ∧ ∃ unread,
        run ⟨v, previous⟩ address (codeAll fs ++ m) ⟨⟨base, room⟩, poolAll fs ++ rest, source⟩ =
          run ⟨v, previous⟩ (address + (codeAll fs).length) m
            ⟨⟨xs.reverse ++ base, room - fs.length⟩, unread, after⟩
    | .error failure =>
      (run ⟨v, previous⟩ address (codeAll fs ++ m)
        ⟨⟨base, room⟩, poolAll fs ++ rest, source⟩).failure = some failure := by
  induction fs generalizing room base rest address source with
  | nil => exact ⟨rfl, rest, rfl⟩
  | cons f fs ih =>
    have first : f.depth ≤ room := (Nat.le_max_left ..).trans fits
    have others : depthAll fs ≤ room - 1 := Nat.le_sub_of_add_le' ((Nat.le_max_right ..).trans fits)
    simp only [codeAll, poolAll, List.flatMap_cons, List.append_assoc] at ih ⊢
    by_cases fatal : f.IsFatal
    · obtain ⟨e, outcome, stops⟩ := f.run_at_of_isFatal previous v source fatal first base
        (fs.flatMap pool ++ rest) address (fs.flatMap code ++ m)
      simpa only [evaluateAll, outcome, Failure.shift] using stops
    · obtain ⟨x, outcome, goesOn⟩ := f.run_at previous v source fatal first base
        (fs.flatMap pool ++ rest) address (fs.flatMap code ++ m)
      -- what the fragment leaves of its pool stands behind all other constants
      obtain ⟨rest', left, usesUp⟩ : ∃ rest', f.pool.drop (totalPoolUse f.code) ++
          (fs.flatMap pool ++ rest) = fs.flatMap pool ++ rest' ∧
          ∀ f ∈ fs.dropLast, f.UsesPoolUp := by
        cases fs with
        | nil => exact ⟨_, rfl, by simp⟩
        | cons g fs =>
          obtain ⟨all, usesUp⟩ := List.forall_mem_cons.mp usesUp
          exact ⟨rest, by rw [List.drop_eq_nil_of_le all.ge, List.nil_append], usesUp⟩
      have next := ih usesUp others (x :: base) rest' (address + f.code.length)
        (f.evaluate previous v source).source
      rw [goesOn, left]
      simp only [evaluateAll, outcome]
      cases h : evaluateAll previous v (address + f.code.length) fs
          (f.evaluate previous v source).source with
      | error failure =>
        rw [h] at next
        exact next
      | ok result =>
        rw [h] at next
        obtain ⟨count, unread, ran⟩ := next
        refine ⟨congrArg (· + 1) count, unread, ran.trans ?_⟩
        simp [Nat.add_assoc, Nat.sub_sub, Nat.add_comm 1]

/-- An operator behind fragments is applied to what they yield. -/
theorem evaluate_operation {fs : List Fragment} (usesUp : ∀ f ∈ fs.dropLast, f.UsesPoolUp)
    {i : Instruction} (takes : i.pops = fs.length) (leaves : i.pushes = 1) (nonempty : 0 < fs.length)
    {s : Script} (new : s.New (codeAll fs ++ [i]) (poolAll fs) ⟨[], depthAll fs⟩) (source : γ) :
    match evaluateAll previous v 0 fs source with
    | .ok (xs, after) => ∀ y left, i.yield ⟨v, previous⟩ xs.reverse [] after = ([y], left) →
        ((s.withLastResult previous).evaluate v source).outcome = .ok y ∧
        ((s.withLastResult previous).evaluate v source).source = left
    | .error failure =>
      ((s.withLastResult previous).evaluate v source).outcome = .error failure := by
  obtain ⟨noPool, goesOn, hi⟩ := operator_of_pops (takes ▸ nonempty)
  have deep := length_le_depthAll fs
  have ran := run_codeAll previous v fs usesUp (Nat.le_refl _) [] [] 0 [i] source
  rw [List.append_nil, ← new.runFor_eq] at ran
  rw [Script.outcome_evaluate, Script.source_evaluate]
  cases h : evaluateAll previous v 0 fs source with
  | error failure =>
    rw [h] at ran
    simp only [Ending.result]
    rw [ran]
  | ok result =>
    obtain ⟨xs, after⟩ := result
    rw [h] at ran
    obtain ⟨count, unread, ran⟩ := ran
    intro y left yields
    have affords : (Pass.mk ⟨xs.reverse ++ [], depthAll fs - fs.length⟩ unread after).Affords i :=
      affords_mk.mpr ⟨by simp [takes, count], by omega, by omega⟩
    have all : (xs.reverse ++ []).take i.pops = xs.reverse := by
      rw [List.append_nil]
      exact List.take_of_length_le (by simp [takes, count])
    rw [ran, run_cons hi, step_of_affords goesOn affords, advance_mk, noPool, all, List.take_zero,
      yields]
    exact ⟨rfl, rfl⟩

/-- **An operator behind fragments makes a script** that is as deep as they need, and applies the
operator to what they yield. -/
theorem operation_composes (fs : List Fragment) (usesUp : ∀ f ∈ fs.dropLast, f.UsesPoolUp)
    {i : Instruction} (takes : i.pops = fs.length) (leaves : i.pushes = 1)
    (nonempty : 0 < fs.length) :
    requiredDepth (codeAll fs ++ [i]) (poolAll fs).length = .ok (depthAll fs) ∧
    ∀ stack, Stack.ofCapacity? (depthAll fs) = some stack →
      ∃ s, Script.ofCode (codeAll fs ++ [i]) (poolAll fs) = .ok s ∧ s.stack = stack ∧
        ∀ (previous : Float) (v : Viewpoint) (source : γ),
          match evaluateAll previous v 0 fs source with
          | .ok (xs, after) => ∀ y left, i.yield ⟨v, previous⟩ xs.reverse [] after = ([y], left) →
              ((s.withLastResult previous).evaluate v source).outcome = .ok y ∧
              ((s.withLastResult previous).evaluate v source).source = left
          | .error failure =>
            ((s.withLastResult previous).evaluate v source).outcome = .error failure := by
  have limit : depthAll fs < Budget.depthLimit := by
    have few := i.pops_le
    refine (depthAll_le fs).trans_lt ?_
    simp only [← takes, Stack.greatestCapacity, Budget.depthLimit, UInt64.size]
    omega
  have required := requiredDepth_operation takes leaves nonempty limit
  refine ⟨required, fun stack granted => ?_⟩
  obtain ⟨s, made, new⟩ := Script.assemble_of_granted granted ⟨_, Nat.le_refl _, required⟩
  refine ⟨s, (Script.ofCode_of_ok required).trans made, new.stack, fun previous v source => ?_⟩
  rw [Stack.eq_of_ofCapacity? granted] at new
  exact evaluate_operation previous v usesUp takes leaves nonempty new source

end Fragment

open Fragment in
/-- **Postfix code composes.** An operator behind the code of its operands makes a script that is
as deep as the operands need, each on top of the values of those before it. It applies the operator
to what the operands yield by themselves, each with the source as the one before left it and with
the same last result; or it fails as the first of them that is fatal, at the address where that one
stands now. An operator on three operands evaluates all of them, whatever it makes of the values. -/
theorem postfix_composes {γ : Type} [WordSource γ] (P Q R : Fragment) (i : Instruction)
    (pUsesUp : P.UsesPoolUp) (leaves : i.pushes = 1) :
    (i.pops = 2 → ∃ op, i.binaryOperator? (γ := γ) = some op ∧
      let depth := max P.depth (1 + Q.depth)
      requiredDepth (P.code ++ Q.code ++ [i]) (P.pool ++ Q.pool).length = .ok depth ∧
      ∀ stack, Stack.ofCapacity? depth = some stack →
        ∃ s, Script.ofCode (P.code ++ Q.code ++ [i]) (P.pool ++ Q.pool) = .ok s ∧
          s.stack = stack ∧
          ∀ (previous : Float) (v : Viewpoint) (source : γ),
            let whole := (s.withLastResult previous).evaluate v source
            let first := P.evaluate previous v source
            let second := Q.evaluate previous v first.source
            (P.IsFatal → ∃ e, first.outcome = .error (.error e) ∧
              whole.outcome = .error (.error e)) ∧
            (¬ P.IsFatal → Q.IsFatal → ∃ e, second.outcome = .error (.error e) ∧
              whole.outcome = .error (.error (e.shift P.code.length))) ∧
            (¬ P.IsFatal → ¬ Q.IsFatal → ∃ p q, first.outcome = .ok p ∧ second.outcome = .ok q ∧
              whole.outcome = .ok (op p q second.source).1 ∧
              whole.source = (op p q second.source).2)) ∧
    (i.pops = 3 → Q.UsesPoolUp → ∃ op, i.ternaryOperator? (γ := γ) = some op ∧
      let depth := max P.depth (max (1 + Q.depth) (2 + R.depth))
      requiredDepth (P.code ++ Q.code ++ R.code ++ [i]) (P.pool ++ Q.pool ++ R.pool).length =
        .ok depth ∧
      ∀ stack, Stack.ofCapacity? depth = some stack →
        ∃ s, Script.ofCode (P.code ++ Q.code ++ R.code ++ [i]) (P.pool ++ Q.pool ++ R.pool) =
            .ok s ∧
          s.stack = stack ∧
          ∀ (previous : Float) (v : Viewpoint) (source : γ),
            let whole := (s.withLastResult previous).evaluate v source
            let first := P.evaluate previous v source
            let second := Q.evaluate previous v first.source
            let third := R.evaluate previous v second.source
            (P.IsFatal → ∃ e, first.outcome = .error (.error e) ∧
              whole.outcome = .error (.error e)) ∧
            (¬ P.IsFatal → Q.IsFatal → ∃ e, second.outcome = .error (.error e) ∧
              whole.outcome = .error (.error (e.shift P.code.length))) ∧
            (¬ P.IsFatal → ¬ Q.IsFatal → R.IsFatal → ∃ e, third.outcome = .error (.error e) ∧
              whole.outcome = .error (.error (e.shift (P.code.length + Q.code.length)))) ∧
            (¬ P.IsFatal → ¬ Q.IsFatal → ¬ R.IsFatal → ∃ p q r, first.outcome = .ok p ∧
              second.outcome = .ok q ∧ third.outcome = .ok r ∧
              whole.outcome = .ok (op p q r third.source).1 ∧
              whole.source = (op p q r third.source).2)) := by
  have := Q.depth_pos
  have := R.depth_pos
  constructor
  · intro takes
    obtain ⟨op, hop, yields⟩ := exists_binaryOperator (γ := γ) takes leaves
    obtain ⟨required, script⟩ := operation_composes (γ := γ) [P, Q] (by simpa using pUsesUp) takes
      leaves (by simp)
    have code : codeAll [P, Q] ++ [i] = P.code ++ Q.code ++ [i] := by simp [codeAll]
    have pool : poolAll [P, Q] = P.pool ++ Q.pool := by simp [poolAll]
    have depth : depthAll [P, Q] = max P.depth (1 + Q.depth) := by
      simp only [depthAll]
      omega
    rw [code, pool, depth] at required script
    refine ⟨op, hop, required, fun stack granted => ?_⟩
    obtain ⟨s, made, held, evaluation⟩ := script stack granted
    refine ⟨s, made, held, fun previous v source => ?_⟩
    have whole := evaluation previous v source
    refine ⟨fun fatal => ?_, fun goesOn fatal => ?_, fun goesOn goesOn' => ?_⟩
    · obtain ⟨e, -, outcome, -⟩ := P.run_alone_of_isFatal previous v source fatal
      refine ⟨e, outcome, ?_⟩
      simpa only [evaluateAll, outcome, Failure.shift, Error.shift_zero] using whole
    · obtain ⟨p, first, -⟩ := P.run_alone previous v source goesOn
      obtain ⟨e, -, second, -⟩ := Q.run_alone_of_isFatal previous v
        (P.evaluate previous v source).source fatal
      refine ⟨e, second, ?_⟩
      simpa only [evaluateAll, first, second, Failure.shift, Nat.zero_add] using whole
    · obtain ⟨p, first, -⟩ := P.run_alone previous v source goesOn
      obtain ⟨q, second, -⟩ := Q.run_alone previous v
        (P.evaluate previous v source).source goesOn'
      refine ⟨p, q, first, second, ?_⟩
      simp only [evaluateAll, first, second] at whole
      exact whole _ _ (yields _ p q _)
  · intro takes qUsesUp
    obtain ⟨op, hop, yields⟩ := exists_ternaryOperator (γ := γ) takes
    obtain ⟨required, script⟩ := operation_composes (γ := γ) [P, Q, R]
      (by simpa using ⟨pUsesUp, qUsesUp⟩) takes leaves (by simp)
    have code : codeAll [P, Q, R] ++ [i] = P.code ++ Q.code ++ R.code ++ [i] := by simp [codeAll]
    have pool : poolAll [P, Q, R] = P.pool ++ Q.pool ++ R.pool := by simp [poolAll]
    have depth : depthAll [P, Q, R] = max P.depth (max (1 + Q.depth) (2 + R.depth)) := by
      simp only [depthAll]
      omega
    rw [code, pool, depth] at required script
    refine ⟨op, hop, required, fun stack granted => ?_⟩
    obtain ⟨s, made, held, evaluation⟩ := script stack granted
    refine ⟨s, made, held, fun previous v source => ?_⟩
    have whole := evaluation previous v source
    refine ⟨fun fatal => ?_, fun goesOn fatal => ?_, fun goesOn goesOn' fatal => ?_,
      fun goesOn goesOn' goesOn'' => ?_⟩
    · obtain ⟨e, -, first, -⟩ := P.run_alone_of_isFatal previous v source fatal
      refine ⟨e, first, ?_⟩
      simpa only [evaluateAll, first, Failure.shift, Error.shift_zero] using whole
    · obtain ⟨p, first, -⟩ := P.run_alone previous v source goesOn
      obtain ⟨e, -, second, -⟩ := Q.run_alone_of_isFatal previous v
        (P.evaluate previous v source).source fatal
      refine ⟨e, second, ?_⟩
      simpa only [evaluateAll, first, second, Failure.shift, Nat.zero_add] using whole
    · obtain ⟨p, first, -⟩ := P.run_alone previous v source goesOn
      obtain ⟨q, second, -⟩ := Q.run_alone previous v
        (P.evaluate previous v source).source goesOn'
      obtain ⟨e, -, third, -⟩ := R.run_alone_of_isFatal previous v
        (Q.evaluate previous v (P.evaluate previous v source).source).source fatal
      refine ⟨e, third, ?_⟩
      simpa only [evaluateAll, first, second, third, Failure.shift, Nat.zero_add] using whole
    · obtain ⟨p, first, -⟩ := P.run_alone previous v source goesOn
      obtain ⟨q, second, -⟩ := Q.run_alone previous v
        (P.evaluate previous v source).source goesOn'
      obtain ⟨r, third, -⟩ := R.run_alone previous v
        (Q.evaluate previous v (P.evaluate previous v source).source).source goesOn''
      refine ⟨p, q, r, first, second, third, ?_⟩
      simp only [evaluateAll, first, second, third] at whole
      exact whole _ _ (yields _ p q r _)

/-- The difference of two constants, and a choice between two of three. -/
theorem postfix_composes_constants :
    (∃ s, Script.ofCode [.constant, .constant, .binary .subtract] [6.0, 4.0] = .ok s ∧
      ((s.withLastResult 8.0).evaluate (.ofWorld {}) (Stepper.mk 0 1)).outcome =
        .ok (BinaryOp.subtract.apply 6.0 4.0)) ∧
    ∃ s, Script.ofCode [.constant, .constant, .constant, .ternary .choose] [1.0, 6.0, 4.0] =
        .ok s ∧
      ((s.withLastResult 8.0).evaluate (.ofWorld {}) (Stepper.mk 0 1)).outcome =
        .ok (TernaryOp.choose.apply 1.0 6.0 4.0) := by
  constructor
  · obtain ⟨op, hop, -, script⟩ := (postfix_composes (γ := Stepper) (.constant 6.0) (.constant 4.0)
      (.constant 4.0) (.binary .subtract) rfl rfl).1 rfl
    cases hop
    obtain ⟨s, made, -, evaluation⟩ := script ⟨[], 2⟩ rfl
    obtain ⟨p, q, first, second, whole, -⟩ :=
      (evaluation 8.0 (.ofWorld {}) ⟨0, 1⟩).2.2 (by decide) (by decide)
    cases first
    cases second
    exact ⟨s, made, whole⟩
  · obtain ⟨op, hop, -, script⟩ := (postfix_composes (γ := Stepper) (.constant 1.0) (.constant 6.0)
      (.constant 4.0) (.ternary .choose) rfl rfl).2 rfl rfl
    cases hop
    obtain ⟨s, made, -, evaluation⟩ := script ⟨[], 3⟩ rfl
    obtain ⟨p, q, r, first, second, third, whole, -⟩ :=
      (evaluation 8.0 (.ofWorld {}) ⟨0, 1⟩).2.2.2 (by decide) (by decide) (by decide)
    cases first
    cases second
    cases third
    exact ⟨s, made, whole⟩

end CabScript
