import CabScript.Proofs.Player
import Mathlib.Data.List.Induction

/-!
# The fault latch

An element that fails says so once and then stands still until it is reset. So over any sequence of
cues the log is made of pairs: an element that stops, and an element that is let go again. Whether
it stops at all is decided by the instructions, and an element that does never shows anything but
the last result it was made with.

## Main definitions

* `RanSinceReset`: an update happened, and no reset since.
* `latchLog`: the log of an element that stops again and again.
* `Latched`: what holds of such an element after any cues.

## Main statements

* `Latched.stop`, `Latched.letGo`: the two cues at which the element says something.
* `Latched.perform`, `Player.latched_after`: one cue, and all cues.
* `fault_latch`: the latch, the log and the values of every element.
-/

namespace CabScript

variable {γ : Type}

/-- An update happened, and no reset since. -/
def RanSinceReset (cues : List (Cue γ)) : Prop :=
  ∃ before v after, cues = before ++ .update v :: after ∧ .reset ∉ after

theorem not_ranSinceReset_nil : ¬ RanSinceReset ([] : List (Cue γ)) := by
  rintro ⟨before, v, after, split, -⟩
  simp at split

/-- The last cue decides, unless it changes nothing but the source. -/
theorem ranSinceReset_concat {cues : List (Cue γ)} {cue : Cue γ} :
    RanSinceReset (cues ++ [cue]) ↔
      (∃ v, cue = .update v) ∨ (cue ≠ .reset ∧ RanSinceReset cues) := by
  constructor
  · rintro ⟨before, v, after, split, noReset⟩
    rcases List.eq_nil_or_concat after with rfl | ⟨rest, last, rfl⟩
    · obtain ⟨-, same⟩ := List.append_inj' split rfl
      exact .inl ⟨v, by simpa using same⟩
    · have split : cues ++ [cue] = (before ++ .update v :: rest) ++ [last] := by simpa using split
      obtain ⟨rfl, same⟩ := List.append_inj' split rfl
      obtain rfl : cue = last := by simpa using same
      obtain ⟨noneBefore, notLast⟩ : Cue.reset ∉ rest ∧ Cue.reset ≠ cue := by simpa using noReset
      exact .inr ⟨Ne.symm notLast, before, v, rest, rfl, noneBefore⟩
  · rintro (⟨v, rfl⟩ | ⟨noReset, before, v, after, rfl, noneAfter⟩)
    · exact ⟨cues, v, [], rfl, by simp⟩
    · exact ⟨before, v, after ++ [cue], by simp, by simp [noneAfter, Ne.symm noReset]⟩

/-! ## The log -/

/-- The log of an element that stops with an error and is reset in turns. -/
def latchLog (error : Error) (listing : String) (count : Nat) : List Notice :=
  (List.range count).map fun k =>
    if k % 2 = 0 then .failed (.error error) listing else .reset listing

theorem latchLog_succ (error : Error) (listing : String) (count : Nat) :
    latchLog error listing (count + 1) = latchLog error listing count ++
      [if count % 2 = 0 then .failed (.error error) listing else .reset listing] := by
  simp [latchLog, List.range_succ]

/-- Such a log starts with an error, and its severities alternate. -/
theorem severity_latchLog {error : Error} {listing : String} {count k : Nat} {notice : Notice}
    (h : (latchLog error listing count)[k]? = some notice) :
    notice.severity = if k % 2 = 0 then .error else .debug := by
  simp only [latchLog, List.getElem?_map, Option.map_eq_some_iff] at h
  obtain ⟨j, hj, rfl⟩ := h
  obtain ⟨-, rfl⟩ := List.getElem?_eq_some_iff.mp hj
  rw [List.getElem_range]
  split <;> rfl

/-! ## Elements that stop -/

/-- What holds of an element with a fatal script after cues that have left a log. -/
structure Latched (e : Element) (error : Error) (cues : List (Cue γ)) (p : Player γ)
    (log : List Notice) : Prop where
  code : p.element.script.code = e.script.code
  constants : p.element.script.constants = e.script.constants
  lastResult : p.element.script.lastResult = e.script.lastResult
  minimum : p.element.minimum = e.minimum
  maximum : p.element.maximum = e.maximum
  flag : p.element.isFaulted = true ↔ RanSinceReset cues
  log : ∃ count, log = latchLog error e.script.listing count ∧
    (p.element.isFaulted = true ↔ count % 2 = 1)

variable [WordSource γ] {e : Element} {error : Error} {cues : List (Cue γ)} {p : Player γ}
  {log : List Notice}

namespace Latched

omit [WordSource γ] in
theorem listing (h : Latched e error cues p log) : p.element.script.listing = e.script.listing := by
  rw [Script.listing, h.code, h.constants, Script.listing]

omit [WordSource γ] in
/-- The element shows what it was made with. -/
theorem value (h : Latched e error cues p log) : p.element.value = e.value := by
  rw [Element.value, h.minimum, h.maximum, h.lastResult, Element.value]

omit [WordSource γ] in
/-- A cue at which the element says nothing and stays as it is. -/
theorem still (h : Latched e error cues p log) {cue : Cue γ}
    (same : RanSinceReset (cues ++ [cue]) ↔ RanSinceReset cues) (source : γ) :
    Latched e error (cues ++ [cue]) ⟨p.element, source⟩ (log ++ (none : Option Notice).toList) where
  code := h.code
  constants := h.constants
  lastResult := h.lastResult
  minimum := h.minimum
  maximum := h.maximum
  flag := h.flag.trans same.symm
  log := by simpa using h.log

/-- The element stops: an error is said, and the count becomes odd. -/
theorem stop (h : Latched e error cues p log) (running : p.element.isFaulted = false)
    {v : Viewpoint}
    (outcome : (p.element.script.evaluate v p.source).outcome = .error (.error error)) :
    Latched e error (cues ++ [.update v]) (p.perform (.update v)).1
      (log ++ (p.perform (.update v)).2.toList) := by
  obtain ⟨count, rfl, parity⟩ := h.log
  have ran : RanSinceReset (cues ++ [.update v]) := ranSinceReset_concat.mpr (.inl ⟨v, rfl⟩)
  have kept : (p.element.script.evaluate v p.source).script.lastResult = e.script.lastResult := by
    rw [Script.lastResult_evaluate, outcome]
    exact h.lastResult
  have even : count % 2 = 0 := by
    rw [running] at parity
    have : ¬ count % 2 = 1 := fun odd => Bool.false_ne_true (parity.mpr odd)
    omega
  rw [Player.perform, Element.update_of_error running outcome, h.listing]
  refine ⟨?_, ?_, kept, h.minimum, h.maximum, iff_of_true rfl ran, count + 1, ?_, ?_⟩
  · exact (Script.code_evaluate ..).trans h.code
  · exact (Script.constants_evaluate ..).trans h.constants
  · rw [latchLog_succ, if_pos even]
    rfl
  · exact iff_of_true rfl (by omega)

/-- The element is let go: the reset is said, and the count becomes even. -/
theorem letGo (h : Latched e error cues p log) (stopped : p.element.isFaulted = true) :
    Latched e error (cues ++ [.reset]) (p.perform .reset).1
      (log ++ (p.perform .reset).2.toList) := by
  obtain ⟨count, rfl, parity⟩ := h.log
  have odd := parity.mp stopped
  rw [Player.perform, Element.reset_of_faulted stopped, h.listing]
  refine ⟨h.code, h.constants, h.lastResult, h.minimum, h.maximum, ?_, count + 1, ?_, ?_⟩
  · exact iff_of_false Bool.false_ne_true (by simp [ranSinceReset_concat])
  · rw [latchLog_succ, if_neg (by omega)]
    rfl
  · exact iff_of_false Bool.false_ne_true (by omega)

/-- One more cue keeps all of it. -/
theorem perform (h : Latched e error cues p log)
    (fails : ∀ t : Script, t.code = e.script.code → ∀ (v : Viewpoint) (source : γ),
      (t.evaluate v source).outcome = .error (.error error)) (cue : Cue γ) :
    Latched e error (cues ++ [cue]) (p.perform cue).1 (log ++ (p.perform cue).2.toList) := by
  cases cue with
  | update v =>
    cases running : p.element.isFaulted with
    | true =>
      have ran : RanSinceReset (cues ++ [.update v]) := ranSinceReset_concat.mpr (.inl ⟨v, rfl⟩)
      rw [Player.perform, Element.update_of_faulted running]
      exact h.still (iff_of_true ran (h.flag.mp running)) p.source
    | false => exact h.stop running (fails p.element.script h.code v p.source)
  | reset =>
    cases running : p.element.isFaulted with
    | true => exact h.letGo running
    | false =>
      have notRan : ¬ RanSinceReset (cues ++ [.reset]) := by simp [ranSinceReset_concat]
      have before : ¬ RanSinceReset cues := fun ran => by
        rw [h.flag.mpr ran] at running
        cases running
      rw [Player.perform, Element.reset_of_running running]
      exact h.still (iff_of_false notRan before) p.source
  | setSource source =>
    exact h.still (by simp [ranSinceReset_concat]) source

end Latched

namespace Player

/-- After any cues the latch is as the cues say, and the log is made of pairs. -/
theorem latched_after (running : e.isFaulted = false)
    (fails : ∀ t : Script, t.code = e.script.code → ∀ (v : Viewpoint) (source : γ),
      (t.evaluate v source).outcome = .error (.error error)) (source : γ) (cues : List (Cue γ)) :
    Latched e error cues ((mk e source).after cues) ((mk e source).notices cues) := by
  induction cues using List.reverseRecOn with
  | nil =>
    refine ⟨rfl, rfl, rfl, rfl, rfl, ?_, 0, rfl, ?_⟩
    · exact iff_of_false (by simp [after, running]) not_ranSinceReset_nil
    · exact iff_of_false (by simp [after, running]) (by simp)
  | append_singleton cues cue ih =>
    rw [after_concat, notices_concat]
    exact ih.perform fails cue

/-! ## Elements that do not stop -/

/-- An element whose script is not fatal never stops, and has nothing to say. -/
theorem running_after (running : e.isFaulted = false) (goesOn : ¬ e.script.IsFatal) (source : γ)
    (cues : List (Cue γ)) :
    ((mk e source).after cues).element.isFaulted = false ∧
      ¬ ((mk e source).after cues).element.script.IsFatal ∧ (mk e source).notices cues = [] := by
  induction cues using List.reverseRecOn with
  | nil => exact ⟨running, goesOn, rfl⟩
  | append_singleton cues cue ih =>
    obtain ⟨running, goesOn, silent⟩ := ih
    rw [after_concat, notices_concat, silent]
    cases cue with
    | update v =>
      obtain ⟨x, outcome⟩ := Script.outcome_of_not_isFatal goesOn v ((mk e source).after cues).source
      rw [perform, Element.update_of_ok running outcome]
      refine ⟨running, ?_, rfl⟩
      rwa [Script.isFatal_congr (Script.code_evaluate ..)]
    | reset =>
      rw [perform, Element.reset_of_running running]
      exact ⟨running, goesOn, rfl⟩
    | setSource source => exact ⟨running, goesOn, rfl⟩

/-! ## Single cues -/

/-- **What a cue does to the latch.** The element says nothing and its latch stays, or it stops and
says why, or it is let go and says so. -/
theorem perform_cases (p : Player γ) (cue : Cue γ) :
    ((p.perform cue).2 = none ∧ (p.perform cue).1.element.isFaulted = p.element.isFaulted ∧
      ¬ (cue = .reset ∧ p.element.isFaulted = true)) ∨
    (∃ v failure, cue = .update v ∧ p.element.isFaulted = false ∧
      (p.perform cue).1.element.isFaulted = true ∧
      (p.perform cue).2 = some (.failed failure p.element.script.listing)) ∨
    (cue = .reset ∧ p.element.isFaulted = true ∧
      (p.perform cue).2 = some (.reset p.element.script.listing)) := by
  cases cue with
  | update v =>
    cases running : p.element.isFaulted with
    | true =>
      rw [perform, Element.update_of_faulted running]
      exact .inl ⟨rfl, running, by simp⟩
    | false =>
      rw [perform]
      cases outcome : (p.element.script.evaluate v p.source).outcome with
      | ok x =>
        rw [Element.update_of_ok running outcome]
        exact .inl ⟨rfl, running, by simp⟩
      | error failure =>
        rw [Element.update_of_error running outcome]
        exact .inr (.inl ⟨v, failure, rfl, rfl, rfl, rfl⟩)
  | reset =>
    cases running : p.element.isFaulted with
    | true =>
      rw [perform, Element.reset_of_faulted running]
      exact .inr (.inr ⟨rfl, rfl, rfl⟩)
    | false =>
      rw [perform, Element.reset_of_running running]
      exact .inl ⟨rfl, running, by simp⟩
  | setSource source => exact .inl ⟨rfl, rfl, by simp⟩

/-- Errors are said exactly where an element stops. -/
theorem says_error_iff (p : Player γ) (cue : Cue γ) :
    (∃ notice, (p.perform cue).2 = some notice ∧ notice.severity = .error) ↔
      (∃ v, cue = .update v) ∧ p.element.isFaulted = false ∧
        (p.perform cue).1.element.isFaulted = true := by
  rcases p.perform_cases cue with
    ⟨silent, same, -⟩ | ⟨v, failure, rfl, running, stopped, said⟩ | ⟨rfl, faulted, said⟩
  · rw [silent, same]
    simp
  · simp [running, stopped, said, Notice.severity]
  · simp [said, Notice.severity]

/-- Anything else is said exactly where an element that has stopped is reset. -/
theorem says_debug_iff (p : Player γ) (cue : Cue γ) :
    (∃ notice, (p.perform cue).2 = some notice ∧ notice.severity = .debug) ↔
      cue = .reset ∧ p.element.isFaulted = true := by
  rcases p.perform_cases cue with
    ⟨silent, -, notLetGo⟩ | ⟨v, failure, rfl, running, -, said⟩ | ⟨rfl, faulted, said⟩
  · rw [silent]
    exact iff_of_false (by simp) notLetGo
  · simp [said, Notice.severity]
  · simp [faulted, said, Notice.severity]

end Player

/-! ## The latch of every element -/

/-- **An element stops at its first failure, says so once, and stands still until it is reset.**
Whatever cues a new element has been given,

* it stands still if and only if its script has a fatal instruction before the first `halt` and an
  update happened since it was made or last reset;
* its log is made of two records in turns, first an error and then a reset, of alternating severity;
* it says an error exactly at an update that stops it, and the other record exactly at a reset that
  lets it go;
* while it stands still, a frame changes neither the element nor the source;
* if its script has a fatal instruction, every frame shows the last result that the script was given
  at first, pinned. -/
theorem fault_latch (e : Element) (new : e.isFaulted = false) (source : γ)
    (cues : List (Cue γ)) :
    let first := Player.mk e source
    let p := first.after cues
    (p.element.isFaulted = true ↔ e.script.IsFatal ∧ RanSinceReset cues) ∧
    (∃ error count, first.notices cues = latchLog error e.script.listing count) ∧
    (∀ k notice, (first.notices cues)[k]? = some notice →
      notice.severity = if k % 2 = 0 then .error else .debug) ∧
    (∀ cue,
      ((∃ notice, (p.perform cue).2 = some notice ∧ notice.severity = .error) ↔
        (∃ v, cue = .update v) ∧ p.element.isFaulted = false ∧
          (p.perform cue).1.element.isFaulted = true) ∧
      ((∃ notice, (p.perform cue).2 = some notice ∧ notice.severity = .debug) ↔
        cue = .reset ∧ p.element.isFaulted = true)) ∧
    (p.element.isFaulted = true → ∀ v, (p.perform (.update v)).1 = p) ∧
    (e.script.IsFatal → ∀ v,
      (p.element.update v p.source).value =
        Element.pin e.minimum e.maximum e.script.lastResult) := by
  intro first p
  have said (cue : Cue γ) := And.intro (p.says_error_iff cue) (p.says_debug_iff cue)
  have still (faulted : p.element.isFaulted = true) (v : Viewpoint) :
      (p.perform (.update v)).1 = p := by
    rw [Player.perform, Element.update_of_faulted faulted]
  by_cases fatal : e.script.IsFatal
  · obtain ⟨error, fails⟩ := Script.outcome_of_isFatal (γ := γ) fatal
    have latched : Latched e error cues p (first.notices cues) :=
      Player.latched_after new fails source cues
    obtain ⟨count, log, -⟩ := latched.log
    refine ⟨latched.flag.trans (and_iff_right fatal).symm, ⟨error, count, log⟩, ?_,
      said, still, fun _ v => ?_⟩
    · intro k notice h
      rw [log] at h
      exact severity_latchLog h
    · have next := latched.perform fails (.update v)
      rw [Element.value_update]
      exact next.value
  · obtain ⟨running, -, silent⟩ : p.element.isFaulted = false ∧ _ ∧ first.notices cues = [] :=
      Player.running_after new fatal source cues
    refine ⟨?_, ?_, ?_, said, still, fun h => absurd h fatal⟩
    · rw [running]
      exact iff_of_false Bool.false_ne_true fun h => fatal h.1
    · exact ⟨⟨.unknownInstruction, none, ""⟩, 0, silent⟩
    · intro k notice h
      rw [silent] at h
      cases h

/-- An element that is pinned above the last result it was made with, reset once between two
frames. -/
theorem fault_latch_pinned : ∃ s : Script,
    Script.ofCode [.constant, .unknown 300] [1.0] = .ok s ∧
      let e : Element := { script := s.withLastResult (-4.0), minimum := some (-1.0) }
      let p := (Player.mk e (Stepper.mk 0 1)).after
        [.update (.ofWorld {}), .reset, .update (.ofWorld {})]
      p.element.isFaulted = true ∧ (p.perform (.update (.ofWorld {}))).1 = p ∧
        (p.element.update (.ofWorld {}) p.source).value =
          Element.pin (some (-1.0)) none (-4.0) := by
  let s : Script := ⟨[.constant, .unknown 300], [1.0], ⟨[], 1⟩, 0.0, 1, Nat.le_refl 1, rfl⟩
  let e : Element := { script := s.withLastResult (-4.0), minimum := some (-1.0) }
  have fatal : e.script.IsFatal := ⟨.unknown 300, by decide, rfl⟩
  obtain ⟨latch, -, -, -, still, values⟩ := fault_latch e rfl (Stepper.mk 0 1)
    [.update (.ofWorld {}), .reset, .update (.ofWorld {})]
  have stopped := latch.mpr ⟨fatal, [.update (.ofWorld {}), .reset], .ofWorld {}, [], rfl, by simp⟩
  exact ⟨s, rfl, stopped, still stopped _, values fatal _⟩

end CabScript
