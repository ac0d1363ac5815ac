import CabScript.Proofs.Session

/-!
# Scenes without a train

An element may stand in a scene without a train. Scripts that ask about the train still run there:
they read `0.0`, by whatever way the query would have looked for the train or one of its cars, and
whatever number they have selected the car by. So all these instructions are one, which puts `0.0`
in place of its operand. Only the aspect of a section and the number of the car can be something
else, as they are found without the train.

## Main definitions

* `Instruction.asksForTrain`: whether an instruction asks for the train, by its code.
* `Instruction.stepAlone`, `runAlone`, `Script.observeAlone`: steps, runs and evaluations in which
  no instruction looks for a train.

## Main statements

* `Query.read_alone`, `IndexedQuery.read_alone`: what queries read without a train.
* `step_alone`, `run_alone`: a step and a run without a train.
* `evaluation_alone`: an evaluation without a train.
-/

namespace CabScript

open Instruction

/-! ## Evaluations that look for no train -/

/-- The aspect that an element shows without a train: none for one that is part of a train, else
that of its own section. -/
def Viewpoint.aspectAlone (v : Viewpoint) : Float :=
  if v.isOnTrain then 0.0
  else
    match v.world.section? v.sectionIndex with
    | some s => s.aspectNumber
    | none => 0.0

/-- Puts `0.0` on top, in place of the operand of an instruction that has one. -/
def Stack.zeroOperand (s : Stack) (i : Instruction) : Except Breach Stack :=
  if i.pops = 0 then s.push 0.0
  else
    match s.pop with
    | .ok (_, s) => s.push 0.0
    | .error b => .error b

namespace Instruction

/-- Whether an instruction asks for the train, or for what is known on a train only. A code that is
taken for unknown asks for nothing. -/
def asksForTrain : Instruction → Bool
  | unknown _ => false
  | i => (55 ≤ i.code && i.code ≤ 123) || (125 ≤ i.code && i.code ≤ 132) || i.code == 135

variable {γ : Type} [WordSource γ]

/-- The pass after an instruction that looks for no train. -/
def stepAlone (setting : Setting) (address : Nat) (p : Pass γ) :
    Instruction → Except Failure (Pass γ)
  | query .sectionAspect => p.withStack (p.stack.push setting.viewpoint.aspectAlone)
  | query .carNumber =>
    p.withStack (p.stack.push
      (if setting.viewpoint.isOnTrain then Number.ofNat setting.viewpoint.carIndex else -1.0))
  | i =>
    if i.asksForTrain then p.withStack (p.stack.zeroOperand i) else i.step setting address p

end Instruction

variable {γ : Type} [WordSource γ]

/-- Runs instructions, none of which looks for a train. -/
def runAlone (setting : Setting) (address : Nat) : List Instruction → Pass γ → Ending γ
  | [], p => ⟨none, p⟩
  | .halt :: _, p => ⟨none, p⟩
  | i :: rest, p =>
    match i.stepAlone setting address p with
    | .ok p => runAlone setting (address + 1) rest p
    | .error failure => ⟨some failure, p⟩

/-- What a host sees of an evaluation that looks for no train. -/
def Script.observeAlone (s : Script) (v : Viewpoint) (source : γ) : Observation γ :=
  let ending := runAlone ⟨v, s.lastResult⟩ 0 s.code (s.start source)
  ⟨ending.result, ending.pass.stack.values, ending.pass.source⟩

/-! ## What queries read without a train -/

section Queries

variable {v : Viewpoint} (alone : v.train = none)
include alone

theorem trainOrZero_alone (read : Train → Float) : v.trainOrZero read = 0.0 := by
  rw [Viewpoint.trainOrZero, alone]
  rfl

theorem sectionAspect_alone : v.sectionAspect = v.aspectAlone := by
  unfold Viewpoint.sectionAspect Viewpoint.aspectAlone Viewpoint.aspectSection?
  rw [alone]
  cases v.isOnTrain <;> rfl

/-- **A query that asks for the train reads `0.0` without one,** -/
theorem Query.read_alone {q : Query} (asks : (query q).asksForTrain = true) : q.read v = 0.0 := by
  cases q with
  | ownCar r =>
    show v.ownCarOrZero r.read = 0.0
    rw [Viewpoint.ownCarOrZero, Viewpoint.ownCar?, alone]
    rfl
  | train q => exact trainOrZero_alone alone _
  | panelAvailable => exact trainOrZero_alone alone _
  | unprovided u => rfl
  | cameraOffset axis => cases axis <;> cases asks
  | elapsed | objectState | time | cameraDistance | cameraView | carNumber | showsTimetable
  | sectionAspect => cases asks

/-- **and so does every query with an operand,** whatever the operand is. -/
theorem IndexedQuery.read_alone (q : IndexedQuery) (operand : Float) : q.read v operand = 0.0 := by
  cases q with
  | car q => exact trainOrZero_alone alone _
  | panel => exact trainOrZero_alone alone _
  | station q => rfl

end Queries

/-- All queries with an operand ask for the train, for a station or for the panel of a train. -/
theorem IndexedQuery.asksForTrain (q : IndexedQuery) : (queryAt q).asksForTrain = true := by
  cases q with
  | car q =>
    cases q with
    | reading r => cases r <;> rfl
    | doors side => rcases side with _ | _ | _ <;> rfl
    | doorTarget side => cases side <;> rfl
    | _ => rfl
  | panel => rfl
  | station q => cases q <;> rfl

/-! ## Steps, runs and evaluations -/

section Alone

variable {setting : Setting} (alone : setting.viewpoint.train = none)
include alone

/-- An instruction that asks for the train puts `0.0` in place of its operand. -/
theorem step_of_asksForTrain {i : Instruction} (asks : i.asksForTrain = true) (address : Nat)
    (p : Pass γ) : i.step setting address p = p.withStack (p.stack.zeroOperand i) := by
  cases i with
  | query q =>
    show p.withStack (p.stack.push (q.read setting.viewpoint)) = p.withStack (p.stack.push 0.0)
    rw [q.read_alone alone asks]
  | queryAt q =>
    obtain ⟨⟨values, room⟩, unread, source⟩ := p
    cases values with
    | nil => rfl
    | cons operand values =>
      show Pass.withStack _ (.ok ⟨q.read setting.viewpoint operand :: values, room⟩) =
        Pass.withStack _ (.ok ⟨0.0 :: values, room⟩)
      rw [q.read_alone alone]
  | unary op | binary op | ternary op => cases op <;> cases asks
  | draw d => cases d <;> cases asks
  | halt | constant | constants | previous | copy | swap | panelTimetable | unknown => cases asks

/-- **A step without a train** looks for none. -/
theorem step_alone (address : Nat) (p : Pass γ) (i : Instruction) :
    i.step setting address p = i.stepAlone setting address p := by
  unfold stepAlone
  split
  · rw [step, Query.read, sectionAspect_alone alone]
  · rfl
  · split
    · exact step_of_asksForTrain alone ‹_› address p
    · rfl

/-- **So does a run,** by one step after the other. -/
theorem run_alone (address : Nat) (l : List Instruction) (p : Pass γ) :
    run setting address l p = runAlone setting address l p := by
  fun_induction run setting address l p with
  | case1 | case2 => rfl
  | case3 address i rest p hi p' stepped ih =>
    rw [step_alone alone] at stepped
    rw [ih, runAlone.eq_3 setting address p i rest hi, stepped]
  | case4 address i rest p hi failure stopped =>
    rw [step_alone alone] at stopped
    rw [runAlone.eq_3 setting address p i rest hi, stopped]

end Alone

/-- **Without a train a script evaluates as if no instruction looked for one:** whatever asks for
the train puts `0.0` in place of its operand. The result or the error, the stack and the source are
the same, whatever the element is otherwise told about its place on a train. -/
theorem evaluation_alone {γ : Type} [WordSource γ] (s : Script) {v : Viewpoint}
    (alone : v.train = none) (source : γ) :
    (s.evaluate v source).observation = s.observeAlone v source := by
  rw [Script.observation_evaluate, Script.runFor, run_alone alone]
  rfl

/-- The door of a car that is no number, for an element that is told to be on car `3` of a train
that is not there. -/
theorem evaluation_alone_no_number : ∃ s : Script,
    Script.ofCode [constant, queryAt (.car (.doors none)), query .carNumber, binary .add]
      [0.0 / 0.0] = .ok s ∧
    let v : Viewpoint := { world := {}, carIndex := 3, isOnTrain := true }
    v.train = none ∧
      (s.evaluate v (Stepper.mk 0 1)).observation = s.observeAlone v (Stepper.mk 0 1) ∧
      (s.observeAlone v (Stepper.mk 0 1)).values = [BinaryOp.add.apply 0.0 (Number.ofNat 3)] := by
  let s : Script := ⟨[constant, queryAt (.car (.doors none)), query .carNumber, binary .add],
    [0.0 / 0.0], ⟨[], 2⟩, 0.0, 2, Nat.le_refl 2, rfl⟩
  exact ⟨s, rfl, rfl, evaluation_alone s rfl _, rfl⟩

end CabScript
