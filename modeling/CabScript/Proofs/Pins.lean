import CabScript.Proofs.NumberOrder
import CabScript.Proofs.Player

/-!
# Pinned values

The range of an element is put on what it shows and on nothing else. The script keeps its result as
it is, also if it reads it again in the next frame, so two elements that differ only in their ranges
never come apart. What they show is their common last result, pinned: first raised to the lower end,
then lowered to the upper one.

## Main definitions

* `Element.raise`, `Element.lower`: the two parts of pinning.
* `Element.IsRange`, `Element.InRange`: two ends that are in order, and the numbers between them.
* `Player.SameButPins`: two players differ in nothing but the ranges of their elements.

## Main statements

* `Element.inRange_pin`, `Element.pin_of_inRange`, `Element.pin_mono`: pinning is clamping.
* `Player.SameButPins.after`: no cues tell apart what differs in its range.
* `pins_never_feed_back`: both for any two elements over one script.
-/

namespace CabScript

namespace Element

variable {minimum maximum : Option Float} {x y low high : Float}

/-- A number, or the lower end of the range if the number lies below. -/
def raise (minimum : Option Float) (x : Float) : Float :=
  match minimum with
  | some low => if x < low then low else x
  | none => x

/-- A number, or the upper end of the range if the number lies above. -/
def lower (maximum : Option Float) (x : Float) : Float :=
  match maximum with
  | some high => if x > high then high else x
  | none => x

theorem pin_eq (minimum maximum : Option Float) (x : Float) :
    pin minimum maximum x = lower maximum (raise minimum x) := rfl

/-- The ends of a range that is not empty. Either of them may be missing. -/
structure IsRange (minimum maximum : Option Float) : Prop where
  low : ∀ low ∈ minimum, low.isNaN = false
  high : ∀ high ∈ maximum, high.isNaN = false
  ordered : ∀ low ∈ minimum, ∀ high ∈ maximum, low ≤ high

/-- A number lies between the ends of a range. -/
structure InRange (minimum maximum : Option Float) (x : Float) : Prop where
  low : ∀ low ∈ minimum, low ≤ x
  high : ∀ high ∈ maximum, x ≤ high

/-! ## Raising -/

theorem raise_of_not_lt (h : ∀ low ∈ minimum, ¬ x < low) : raise minimum x = x := by
  cases minimum with
  | none => rfl
  | some low => exact if_neg (h low rfl)

theorem raise_of_isNaN (hx : x.isNaN = true) : raise minimum x = x := by
  refine raise_of_not_lt fun low _ less => ?_
  rw [(Number.lt_iff.mp less).1] at hx
  cases hx

theorem raise_of_lt (lowEnd : low ∈ minimum) (h : x < low) : raise minimum x = low := by
  obtain rfl : minimum = some low := lowEnd
  exact if_pos h

/-- Raising only raises. -/
theorem le_raise_self (hx : x.isNaN = false) : x ≤ raise minimum x := by
  by_cases below : ∃ low ∈ minimum, x < low
  · obtain ⟨low, lowEnd, less⟩ := below
    rw [raise_of_lt lowEnd less]
    exact Number.le_of_lt less
  · rw [raise_of_not_lt fun low lowEnd less => below ⟨low, lowEnd, less⟩]
    exact Number.le_self hx

theorem le_raise (hx : x.isNaN = false) (lowEnd : low ∈ minimum) (hlow : low.isNaN = false) :
    low ≤ raise minimum x := by
  by_cases less : x < low
  · rw [raise_of_lt lowEnd less]
    exact Number.le_self hlow
  · have above : low ≤ x := (Number.not_lt_iff hx hlow).mp less
    exact Number.le_trans above (le_raise_self hx)

theorem raise_mono (h : x ≤ y) : raise minimum x ≤ raise minimum y := by
  obtain ⟨hx, hy, -⟩ := Number.le_iff.mp h
  by_cases below : ∃ low ∈ minimum, x < low
  · obtain ⟨low, lowEnd, less⟩ := below
    rw [raise_of_lt lowEnd less]
    exact le_raise hy lowEnd (Number.lt_iff.mp less).2.1
  · rw [raise_of_not_lt (x := x) fun low lowEnd less => below ⟨low, lowEnd, less⟩]
    exact Number.le_trans h (le_raise_self hy)

/-! ## Lowering -/

theorem lower_of_not_lt (h : ∀ high ∈ maximum, ¬ high < x) : lower maximum x = x := by
  cases maximum with
  | none => rfl
  | some high => exact if_neg (h high rfl)

theorem lower_of_isNaN (hx : x.isNaN = true) : lower maximum x = x := by
  refine lower_of_not_lt fun high _ less => ?_
  rw [(Number.lt_iff.mp less).2.1] at hx
  cases hx

theorem lower_of_lt (highEnd : high ∈ maximum) (h : high < x) : lower maximum x = high := by
  obtain rfl : maximum = some high := highEnd
  exact if_pos h

/-- Lowering only lowers. -/
theorem lower_le_self (hx : x.isNaN = false) : lower maximum x ≤ x := by
  by_cases above : ∃ high ∈ maximum, high < x
  · obtain ⟨high, highEnd, less⟩ := above
    rw [lower_of_lt highEnd less]
    exact Number.le_of_lt less
  · rw [lower_of_not_lt fun high highEnd less => above ⟨high, highEnd, less⟩]
    exact Number.le_self hx

theorem lower_le (hx : x.isNaN = false) (highEnd : high ∈ maximum) (hhigh : high.isNaN = false) :
    lower maximum x ≤ high := by
  by_cases less : high < x
  · rw [lower_of_lt highEnd less]
    exact Number.le_self hhigh
  · have below : x ≤ high := (Number.not_lt_iff hhigh hx).mp less
    exact Number.le_trans (lower_le_self hx) below

/-- Afterwards nothing is above the upper end, whatever was compared. -/
theorem not_lt_lower (highEnd : high ∈ maximum) (x : Float) : ¬ high < lower maximum x := by
  intro above
  obtain ⟨hhigh, hv, -⟩ := Number.lt_iff.mp above
  cases hx : x.isNaN with
  | true =>
    rw [lower_of_isNaN hx, hx] at hv
    cases hv
  | false => exact Number.not_lt_of_le (lower_le hx highEnd hhigh) above

theorem lower_mono (h : x ≤ y) : lower maximum x ≤ lower maximum y := by
  obtain ⟨hx, hy, -⟩ := Number.le_iff.mp h
  by_cases above : ∃ high ∈ maximum, high < y
  · obtain ⟨high, highEnd, less⟩ := above
    rw [lower_of_lt (x := y) highEnd less]
    exact lower_le hx highEnd (Number.lt_iff.mp less).1
  · rw [lower_of_not_lt (x := y) fun high highEnd less => above ⟨high, highEnd, less⟩]
    exact Number.le_trans (lower_le_self hx) h

/-! ## Pinning -/

/-- A NaN is shown as it is. -/
theorem pin_of_isNaN (hx : x.isNaN = true) : pin minimum maximum x = x := by
  rw [pin_eq, raise_of_isNaN hx, lower_of_isNaN hx]

theorem pin_of_inRange (h : InRange minimum maximum x) : pin minimum maximum x = x := by
  rw [pin_eq, raise_of_not_lt fun low lowEnd => Number.not_lt_of_le (h.low low lowEnd),
    lower_of_not_lt fun high highEnd => Number.not_lt_of_le (h.high high highEnd)]

theorem pin_mono (h : x ≤ y) : pin minimum maximum x ≤ pin minimum maximum y :=
  lower_mono (raise_mono h)

theorem isNaN_raise (hx : x.isNaN = false) : (raise minimum x).isNaN = false :=
  (Number.le_iff.mp (le_raise_self hx)).2.1

/-- The ends of a range lie in it. -/
theorem IsRange.lower_low (range : IsRange minimum maximum) (lowEnd : low ∈ minimum) :
    lower maximum low = low :=
  lower_of_not_lt fun high highEnd => Number.not_lt_of_le (range.ordered low lowEnd high highEnd)

/-- What is shown lies in the range. -/
theorem inRange_pin (range : IsRange minimum maximum) (hx : x.isNaN = false) :
    InRange minimum maximum (pin minimum maximum x) where
  low low lowEnd := by
    have raised : low ≤ raise minimum x := le_raise hx lowEnd (range.low low lowEnd)
    -- lowering does not get below the lower end, as the upper one does not
    calc low = lower maximum low := (range.lower_low lowEnd).symm
      _ ≤ lower maximum (raise minimum x) := lower_mono raised
  high high highEnd := lower_le (isNaN_raise hx) highEnd (range.high high highEnd)

/-- A number below the range is shown as the lower end, -/
theorem pin_of_lt_low (range : IsRange minimum maximum) (lowEnd : low ∈ minimum) (h : x < low) :
    pin minimum maximum x = low := by
  rw [pin_eq, raise_of_lt lowEnd h, range.lower_low lowEnd]

/-- and one above it as the upper end. -/
theorem pin_of_high_lt (range : IsRange minimum maximum) (highEnd : high ∈ maximum)
    (h : high < x) : pin minimum maximum x = high := by
  have notBelow : ∀ low ∈ minimum, ¬ x < low := fun low lowEnd =>
    Number.not_lt_of_le (Number.le_trans (range.ordered low lowEnd high highEnd) (Number.le_of_lt h))
  rw [pin_eq, raise_of_not_lt notBelow, lower_of_lt highEnd h]

/-- Where the ends are crossed, only the upper one is shown. -/
theorem pin_of_crossed (lowEnd : low ∈ minimum) (highEnd : high ∈ maximum) (crossed : high < low)
    (hx : x.isNaN = false) : pin minimum maximum x = high := by
  obtain ⟨hhigh, hlow, -⟩ := Number.lt_iff.mp crossed
  have raised : low ≤ raise minimum x := le_raise hx lowEnd hlow
  have above : high < raise minimum x := by
    by_contra notAbove
    have below : raise minimum x ≤ high := (Number.not_lt_iff hhigh (isNaN_raise hx)).mp notAbove
    exact Number.not_lt_of_le (Number.le_trans raised below) crossed
  rw [pin_eq, lower_of_lt highEnd above]

/-- No frame changes the range. -/
theorem range_update {γ : Type} [WordSource γ] (e : Element) (v : Viewpoint) (source : γ) :
    (e.update v source).element.minimum = e.minimum ∧
      (e.update v source).element.maximum = e.maximum := by
  rw [update]
  split
  · exact ⟨rfl, rfl⟩
  · simp only
    split <;> exact ⟨rfl, rfl⟩

end Element

/-! ## Two players -/

namespace Player

variable {γ : Type} [WordSource γ] {p q : Player γ}

/-- Two players differ in nothing but the ranges of their elements. -/
structure SameButPins (p q : Player γ) : Prop where
  script : q.element.script = p.element.script
  isFaulted : q.element.isFaulted = p.element.isFaulted
  source : q.source = p.source

/-- One cue does not tell them apart. -/
theorem SameButPins.perform (same : p.SameButPins q) (cue : Cue γ) :
    (p.perform cue).1.SameButPins (q.perform cue).1 ∧ (q.perform cue).2 = (p.perform cue).2 := by
  obtain ⟨⟨script, low, high, isFaulted⟩, source⟩ := p
  obtain ⟨⟨script', low', high', isFaulted'⟩, source'⟩ := q
  obtain rfl : script = script' := same.script.symm
  obtain rfl : isFaulted = isFaulted' := same.isFaulted.symm
  obtain rfl : source = source' := same.source.symm
  cases cue with
  | update v =>
    cases isFaulted with
    | true => exact ⟨⟨rfl, rfl, rfl⟩, rfl⟩
    | false =>
      cases outcome : (script.evaluate v source).outcome with
      | ok x =>
        rw [Player.perform, Player.perform, Element.update_of_ok rfl outcome,
          Element.update_of_ok rfl outcome]
        exact ⟨⟨rfl, rfl, rfl⟩, rfl⟩
      | error failure =>
        rw [Player.perform, Player.perform, Element.update_of_error rfl outcome,
          Element.update_of_error rfl outcome]
        exact ⟨⟨rfl, rfl, rfl⟩, rfl⟩
  | reset =>
    cases isFaulted <;> exact ⟨⟨rfl, rfl, rfl⟩, rfl⟩
  | setSource source => exact ⟨⟨rfl, rfl, rfl⟩, rfl⟩

/-- **No cues tell apart what differs in its range.** -/
theorem SameButPins.after (same : p.SameButPins q) (cues : List (Cue γ)) :
    (p.after cues).SameButPins (q.after cues) ∧ q.notices cues = p.notices cues := by
  induction cues generalizing p q with
  | nil => exact ⟨same, rfl⟩
  | cons cue rest ih =>
    obtain ⟨next, said⟩ := same.perform cue
    obtain ⟨last, log⟩ := ih next
    refine ⟨last, ?_⟩
    rw [notices, notices, said, log]

/-- The range stays as it was made. -/
theorem range_after (p : Player γ) (cues : List (Cue γ)) :
    (p.after cues).element.minimum = p.element.minimum ∧
      (p.after cues).element.maximum = p.element.maximum := by
  induction cues generalizing p with
  | nil => exact ⟨rfl, rfl⟩
  | cons cue rest ih =>
    have first : (p.perform cue).1.element.minimum = p.element.minimum ∧
        (p.perform cue).1.element.maximum = p.element.maximum := by
      cases cue with
      | update v => exact p.element.range_update v p.source
      | reset =>
        rw [perform, Element.reset]
        split <;> exact ⟨rfl, rfl⟩
      | setSource source => exact ⟨rfl, rfl⟩
    obtain ⟨low, high⟩ := ih (p.perform cue).1
    exact ⟨low.trans first.1, high.trans first.2⟩

/-- What a frame shows after any cues: the last result, pinned into the range that was made. -/
theorem value_after (p : Player γ) (cues : List (Cue γ)) (v : Viewpoint) :
    ((p.after cues).element.update v (p.after cues).source).value =
      Element.pin p.element.minimum p.element.maximum
        (p.after (cues ++ [.update v])).element.script.lastResult := by
  obtain ⟨low, high⟩ := p.range_after (cues ++ [.update v])
  rw [Element.value_update, ← low, ← high, after_concat]
  rfl

end Player

/-- **Pins never feed back, and they clamp.** Two elements over the same script that are given the
same cues and draw from equal sources have, after any cues, the same script, the same latch, the
same source and the same log, whatever their ranges are. What they show is decided by their common
last result `r` and their own range:

* if the ends are numbers in order and `r` is a number, the value lies in the range; it is `r` where
  `r` does, and otherwise the end on the side of `r`;
* the value is monotone in `r`;
* it never exceeds the upper end, also if the ends are crossed, and then it is the upper end;
* a NaN is shown as it is. -/
theorem pins_never_feed_back {γ : Type} [WordSource γ] (e f : Element)
    (script : f.script = e.script) (latch : f.isFaulted = e.isFaulted) (source : γ)
    (cues : List (Cue γ)) :
    let p := (Player.mk e source).after cues
    let q := (Player.mk f source).after cues
    (q.element.script = p.element.script ∧ q.element.isFaulted = p.element.isFaulted ∧
      q.source = p.source ∧
      (Player.mk f source).notices cues = (Player.mk e source).notices cues) ∧
    (∀ v,
      let r := (p.perform (.update v)).1.element.script.lastResult
      (q.perform (.update v)).1.element.script.lastResult = r ∧
        (p.element.update v p.source).value = Element.pin e.minimum e.maximum r ∧
        (q.element.update v q.source).value = Element.pin f.minimum f.maximum r) ∧
    ∀ minimum maximum : Option Float,
      (Element.IsRange minimum maximum → ∀ r, r.isNaN = false →
        Element.InRange minimum maximum (Element.pin minimum maximum r) ∧
        (Element.InRange minimum maximum r → Element.pin minimum maximum r = r) ∧
        (∀ low ∈ minimum, r < low → Element.pin minimum maximum r = low) ∧
        (∀ high ∈ maximum, high < r → Element.pin minimum maximum r = high)) ∧
      (∀ r r', r ≤ r' → Element.pin minimum maximum r ≤ Element.pin minimum maximum r') ∧
      (∀ high ∈ maximum,
        (∀ r, ¬ high < Element.pin minimum maximum r) ∧
        ∀ low ∈ minimum, high < low → ∀ r, r.isNaN = false →
          Element.pin minimum maximum r = high) ∧
      (∀ r, r.isNaN = true → Element.pin minimum maximum r = r) := by
  intro p q
  have start : (Player.mk e source).SameButPins (Player.mk f source) := ⟨script, latch, rfl⟩
  obtain ⟨same, log⟩ := start.after cues
  refine ⟨⟨same.script, same.isFaulted, same.source, log⟩, fun v => ?_, fun minimum maximum => ?_⟩
  · intro r
    have next : (q.perform (.update v)).1.element.script.lastResult = r :=
      congrArg Script.lastResult (same.perform (.update v)).1.script
    refine ⟨next, ?_, ?_⟩
    · have shown := (Player.mk e source).value_after cues v
      rwa [Player.after_concat] at shown
    · have shown := (Player.mk f source).value_after cues v
      rw [Player.after_concat] at shown
      exact shown.trans (congrArg _ next)
  · refine ⟨fun range r hr => ?_, fun r r' h => Element.pin_mono h, fun high highEnd => ?_,
      fun r hr => Element.pin_of_isNaN hr⟩
    · exact ⟨Element.inRange_pin range hr, Element.pin_of_inRange,
        fun low lowEnd => Element.pin_of_lt_low range lowEnd,
        fun high highEnd => Element.pin_of_high_lt range highEnd⟩
    · exact ⟨fun r => Element.not_lt_lower highEnd _,
        fun low lowEnd crossed r hr => Element.pin_of_crossed lowEnd highEnd crossed hr⟩

/-- A clock that is pinned in one element and shown as it is in another, and a number that crossed
ends turn into the upper one. -/
theorem pins_never_feed_back_clock : ∃ s : Script,
    Script.ofCode [.previous, .query .elapsed, .binary .add] [] = .ok s ∧
      let e : Element := { script := s }
      let f : Element := { script := s, minimum := some 0.0, maximum := some 2.5 }
      let cues := [.update ((Viewpoint.ofWorld {}).after 1.0), .reset,
        .update ((Viewpoint.ofWorld {}).after 1.0)]
      ((Player.mk f (Stepper.mk 0 1)).after cues).element.script =
          ((Player.mk e (Stepper.mk 0 1)).after cues).element.script ∧
        (3.0 : Float).isNaN = false ∧ Element.IsRange (some 0.0) (some 2.5) ∧
        Element.pin (some 0.0) (some 2.5) 3.0 = 2.5 ∧
        Element.pin (some 5.0) (some 4.0) 3.0 = 4.0 := by
  let s : Script :=
    ⟨[.previous, .query .elapsed, .binary .add], [], ⟨[], 2⟩, 0.0, 2, Nat.le_refl 2, rfl⟩
  have range : Element.IsRange (some 0.0) (some 2.5) := ⟨by decide, by decide, by decide⟩
  obtain ⟨⟨script, -⟩, -, laws⟩ := pins_never_feed_back { script := s }
    { script := s, minimum := some 0.0, maximum := some 2.5 } rfl rfl (Stepper.mk 0 1)
    [.update ((Viewpoint.ofWorld {}).after 1.0), .reset,
      .update ((Viewpoint.ofWorld {}).after 1.0)]
  have clamped := ((laws (some 0.0) (some 2.5)).1 range 3.0 (by decide)).2.2.2 2.5 rfl (by decide)
  have crossed := ((laws (some 5.0) (some 4.0)).2.2.1 4.0 rfl).2 5.0 rfl (by decide) 3.0 (by decide)
  exact ⟨s, rfl, script, by decide, range, clamped, crossed⟩

end CabScript
