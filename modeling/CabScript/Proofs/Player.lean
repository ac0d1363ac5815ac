import CabScript.Element
import CabScript.Proofs.History

/-!
# Playing an element

A host that shows an element asks for one frame after the other, from a source that it hands on, and
resets the element now and then. What one frame does depends on two things only: whether the element
has failed before, and whether its script has a fatal instruction that a pass reaches.

## Main definitions

* `Script.IsFatal`: a pass over the script cannot get to its end.
* `Cue`, `Player`: what a host asks of an element, and the element with the source at hand.
* `Player.after`, `Player.notices`: what cues leave, and what the element says meanwhile.

## Main statements

* `Script.outcome_of_isFatal`, `Script.outcome_of_not_isFatal`: how evaluations end.
* `Element.update_of_ok`: the frames in which there is a result.
* `Element.update_of_error`, `Element.update_of_faulted`: those in which there is none.
-/

namespace CabScript

open Instruction

/-! ## Scripts that cannot be run -/

namespace Script

variable {γ : Type} [WordSource γ] {s t : Script}

/-- A pass over the script meets a fatal instruction. -/
def IsFatal (s : Script) : Prop :=
  ∃ i ∈ live s.code, i.isFatal = true

theorem isFatal_congr (code : t.code = s.code) : t.IsFatal ↔ s.IsFatal := by
  rw [IsFatal, code, IsFatal]

/-- A script that is fatal ends with one and the same error in every evaluation, also in those of
its later states. -/
theorem outcome_of_isFatal (fatal : s.IsFatal) :
    ∃ error, ∀ t : Script, t.code = s.code → ∀ (v : Viewpoint) (source : γ),
      (t.evaluate v source).outcome = .error (.error error) := by
  obtain ⟨before, i, after, split, goesOn, fatal⟩ := exists_first_fatal fatal
  obtain ⟨error, he⟩ := exists_fatalError fatal before.length
  refine ⟨error, fun t code v source => ?_⟩
  rw [← code] at split
  exact (t.evaluate_of_fatal v source split goesOn he).1

/-- Any other script has a result. -/
theorem outcome_of_not_isFatal (goesOn : ¬ s.IsFatal) (v : Viewpoint) (source : γ) :
    ∃ x, (s.evaluate v source).outcome = .ok x := by
  have goesOn : ∀ i ∈ live s.code, i.isFatal = false := by simpa [IsFatal] using goesOn
  obtain ⟨x, outcome, -⟩ := s.evaluate_of_goesOn v source goesOn
  exact ⟨x, outcome⟩

/-- An evaluation does not change the listing. -/
theorem listing_evaluate (s : Script) (v : Viewpoint) (source : γ) :
    (s.evaluate v source).script.listing = s.listing := by
  rw [listing, code_evaluate, constants_evaluate, listing]

end Script

/-! ## Frames -/

namespace Element

variable {γ : Type} [WordSource γ] {e : Element} {v : Viewpoint} {source : γ}

/-- A frame for which the script has a result shows the result, pinned. -/
theorem update_of_ok (running : e.isFaulted = false) {x : Float}
    (outcome : (e.script.evaluate v source).outcome = .ok x) :
    e.update v source =
      ⟨pin e.minimum e.maximum x, { e with script := (e.script.evaluate v source).script }, none,
        (e.script.evaluate v source).source⟩ := by
  have result : (e.script.evaluate v source).script.lastResult = x := by
    rw [Script.lastResult_evaluate, outcome]
    rfl
  simp only [update, running, Bool.false_eq_true, if_false, outcome, value, result]

/-- A frame of an element that has failed changes nothing, says nothing and draws nothing. -/
theorem update_of_faulted (faulted : e.isFaulted = true) (v : Viewpoint) (source : γ) :
    e.update v source = ⟨e.value, e, none, source⟩ := by
  rw [update, if_pos faulted]

/-- A frame in which the script fails shows what the frame before has shown, and says so. -/
theorem update_of_error (running : e.isFaulted = false) {failure : Failure}
    (outcome : (e.script.evaluate v source).outcome = .error failure) :
    e.update v source =
      ⟨e.value, { e with script := (e.script.evaluate v source).script, isFaulted := true },
        some (.failed failure e.script.listing), (e.script.evaluate v source).source⟩ := by
  have kept : (e.script.evaluate v source).script.lastResult = e.script.lastResult := by
    rw [Script.lastResult_evaluate, outcome]
    rfl
  simp only [update, running, Bool.false_eq_true, if_false, outcome, value, kept,
    Script.listing_evaluate]

/-- A frame shows the last result, pinned. -/
theorem value_update (e : Element) (v : Viewpoint) (source : γ) :
    (e.update v source).value = (e.update v source).element.value := by
  rw [update]
  split
  · rfl
  · simp only
    split <;> rfl

/-- To reset an element that runs changes nothing. -/
theorem reset_of_running (running : e.isFaulted = false) : e.reset = (e, none) := by
  simp only [reset, running, Bool.false_eq_true, if_false]

/-- To reset an element that has failed lets it run again, and says so. -/
theorem reset_of_faulted (faulted : e.isFaulted = true) :
    e.reset = ({ e with isFaulted := false }, some (.reset e.script.listing)) := by
  rw [reset, if_pos faulted]

end Element

/-! ## Cues -/

/-- What a host can ask of an element that always draws from the source at hand. -/
inductive Cue (γ : Type) where
  /-- A frame for what the element sees. -/
  | update (v : Viewpoint)
  | reset
  /-- From here on another source is at hand. -/
  | setSource (source : γ)

/-- An element and the source at hand. -/
structure Player (γ : Type) where
  element : Element
  source : γ

namespace Player

variable {γ : Type} [WordSource γ]

/-- The player after a cue, and what the element has to say. -/
def perform (p : Player γ) : Cue γ → Player γ × Option Notice
  | .update v =>
    let frame := p.element.update v p.source
    (⟨frame.element, frame.source⟩, frame.notice)
  | .reset => (⟨p.element.reset.1, p.source⟩, p.element.reset.2)
  | .setSource source => (⟨p.element, source⟩, none)

/-- The player after cues in their order. -/
def after (p : Player γ) (cues : List (Cue γ)) : Player γ :=
  cues.foldl (fun p cue => (p.perform cue).1) p

/-- What the element says meanwhile. -/
def notices (p : Player γ) : List (Cue γ) → List Notice
  | [] => []
  | cue :: rest => (p.perform cue).2.toList ++ (p.perform cue).1.notices rest

theorem after_concat (p : Player γ) (cues : List (Cue γ)) (cue : Cue γ) :
    p.after (cues ++ [cue]) = ((p.after cues).perform cue).1 := by
  simp only [after, List.foldl_append, List.foldl_cons, List.foldl_nil]

theorem notices_concat (p : Player γ) (cues : List (Cue γ)) (cue : Cue γ) :
    p.notices (cues ++ [cue]) = p.notices cues ++ ((p.after cues).perform cue).2.toList := by
  induction cues generalizing p with
  | nil => simp [notices, after]
  | cons first rest ih =>
    rw [List.cons_append, notices, ih, notices, List.append_assoc]
    rfl

end Player

end CabScript
