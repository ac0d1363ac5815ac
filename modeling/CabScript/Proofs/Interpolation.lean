import CabScript.Rolling.Brightness
import Mathlib

/-!
# Brightness between two points of the track

Over exact numbers, the light between two points of the track goes from the brightness at the one to
the brightness at the other in proportion to the way, and beyond either point it stays as it is
there. The track may be numbered against the train, so that the point ahead has the smaller
position; the way from one point to the other then leads down the numbers.

A position is taken to the part of the way that lies behind it, and this part is clamped. Clamping
keeps the order, and it keeps what is left of the way what is left of it.

## Main definitions

* `Brightness.Onward`: from one position to another the way leads from the point behind towards the
  point ahead.
* `Brightness.way`: the part of the way, not clamped.
* `Brightness.reverse`: the two points exchanged.

## Main statements

* `Brightness.current_eq`: the brightness is that of the point behind and a part of the difference.
* `Brightness.progress_mono`, `Brightness.progress_reverse`: the part that counts.
* `brightness_interpolates`: what the brightness is at every position.
-/

namespace CabScript

namespace Brightness

/-! ## Parts of the way -/

section Clamp

variable {t u : ℚ}

theorem clampUnit_eq (t : ℚ) : clampUnit t = max 0 (min 1 t) := by
  unfold clampUnit
  split_ifs <;> grind

theorem clampUnit_nonneg (t : ℚ) : 0 ≤ clampUnit t := by
  rw [clampUnit_eq]
  exact le_max_left 0 _

theorem clampUnit_le_one (t : ℚ) : clampUnit t ≤ 1 := by
  rw [clampUnit_eq]
  exact max_le zero_le_one (min_le_left 1 t)

theorem clampUnit_mono (h : t ≤ u) : clampUnit t ≤ clampUnit u := by
  rw [clampUnit_eq, clampUnit_eq]
  exact max_le_max_left 0 (min_le_min_left 1 h)

theorem clampUnit_of_nonpos (h : t ≤ 0) : clampUnit t = 0 := by
  rw [clampUnit_eq]
  exact max_eq_left ((min_le_right 1 t).trans h)

theorem clampUnit_of_one_le (h : 1 ≤ t) : clampUnit t = 1 := by
  rw [clampUnit_eq, min_eq_left h]
  exact max_eq_right zero_le_one

theorem clampUnit_of_mem (h : t ∈ Set.Icc 0 1) : clampUnit t = t := by
  rw [clampUnit_eq, min_eq_right h.2, max_eq_right h.1]

/-- What is left of the way is clamped as the way is. -/
theorem clampUnit_one_sub (t : ℚ) : clampUnit (1 - t) = 1 - clampUnit t := by
  rw [clampUnit_eq, clampUnit_eq]
  grind

end Clamp

variable {b : Brightness ℚ} {p q : ℚ}

/-- From `p` to `q` the way leads from the point behind towards the point ahead, if it leads
anywhere. -/
structure Onward (b : Brightness ℚ) (p q : ℚ) : Prop where
  up : 0 < b.span → p ≤ q
  down : b.span < 0 → q ≤ p

/-- How far along the way from the point behind to the point ahead a position lies, negative in
front of it and above `1` beyond it. -/
def way (b : Brightness ℚ) (p : ℚ) : ℚ :=
  (p - b.previousPosition) / b.span

/-- The two points exchanged. -/
def reverse (b : Brightness ℚ) : Brightness ℚ where
  previous := b.next
  previousPosition := b.nextPosition
  next := b.previous
  nextPosition := b.previousPosition

/-! ## The part of the way that counts -/

theorem way_previousPosition (b : Brightness ℚ) : b.way b.previousPosition = 0 := by
  rw [way, sub_self, zero_div]

section Apart

variable (apart : b.span ≠ 0)

include apart

theorem way_nextPosition : b.way b.nextPosition = 1 :=
  div_self apart

theorem way_mono (onward : b.Onward p q) : b.way p ≤ b.way q := by
  rcases apart.lt_or_gt with down | up
  · exact div_le_div_of_nonpos_of_le down.le (sub_le_sub_right (onward.down down) _)
  · exact div_le_div_of_nonneg_right (sub_le_sub_right (onward.up up) _) up.le

theorem progress_mono (onward : b.Onward p q) : b.progress p ≤ b.progress q :=
  clampUnit_mono (way_mono apart onward)

theorem progress_behind (behind : b.Onward p b.previousPosition) : b.progress p = 0 := by
  apply clampUnit_of_nonpos
  calc b.way p ≤ b.way b.previousPosition := way_mono apart behind
    _ = 0 := b.way_previousPosition

theorem progress_beyond (beyond : b.Onward b.nextPosition p) : b.progress p = 1 := by
  apply clampUnit_of_one_le
  calc 1 = b.way b.nextPosition := (way_nextPosition apart).symm
    _ ≤ b.way p := way_mono apart beyond

theorem progress_between (left : b.Onward b.previousPosition p)
    (right : b.Onward p b.nextPosition) : b.progress p = b.way p := by
  apply clampUnit_of_mem
  constructor
  · rw [← b.way_previousPosition]
    exact way_mono apart left
  · rw [← way_nextPosition apart]
    exact way_mono apart right

/-- Seen from the other end, the part of the way is what is left of it. -/
theorem progress_reverse (p : ℚ) : b.reverse.progress p = 1 - b.progress p := by
  have turned : b.reverse.span = -b.span := (neg_sub _ _).symm
  have left : (p - b.reverse.previousPosition) / b.reverse.span =
      1 - (p - b.previousPosition) / b.span := by
    rw [turned, reverse]
    field_simp
    unfold span
    ring
  rw [progress, progress, left, clampUnit_one_sub]

/-! ## The brightness -/

/-- **The brightness** is that of the point behind and a part of the difference. -/
theorem current_eq (p : ℚ) :
    b.current p = b.previous + (b.next - b.previous) * b.progress p := by
  have apart' : (b.span == 0) = false := beq_eq_false_iff_ne.mpr apart
  rw [current, apart', if_neg Bool.false_ne_true]
  ring

theorem current_mono (onward : b.Onward p q) (brighter : b.previous ≤ b.next) :
    b.current p ≤ b.current q := by
  have factor : 0 ≤ b.next - b.previous := sub_nonneg.mpr brighter
  rw [current_eq apart, current_eq apart]
  gcongr
  exact progress_mono apart onward

theorem current_anti (onward : b.Onward p q) (darker : b.next ≤ b.previous) :
    b.current q ≤ b.current p := by
  have factor : b.next - b.previous ≤ 0 := sub_nonpos.mpr darker
  rw [current_eq apart, current_eq apart]
  exact add_le_add_right (mul_le_mul_of_nonpos_left (progress_mono apart onward) factor) _

theorem current_reverse (p : ℚ) : b.reverse.current p = b.current p := by
  have apart' : b.reverse.span ≠ 0 := by
    rw [show b.reverse.span = -b.span from (neg_sub _ _).symm]
    exact neg_ne_zero.mpr apart
  rw [current_eq apart', current_eq apart, progress_reverse apart, reverse]
  ring

end Apart

theorem current_of_span_eq_zero (together : b.span = 0) (p : ℚ) : b.current p = b.previous := by
  rw [current, together]
  rfl

/-- **The brightness is between those of the two points,** also if these lie in one place. -/
theorem current_mem (b : Brightness ℚ) (p : ℚ) :
    b.current p ∈ Set.Icc (min b.previous b.next) (max b.previous b.next) := by
  rcases eq_or_ne b.span 0 with together | apart
  · rw [current_of_span_eq_zero together]
    exact ⟨min_le_left _ _, le_max_left _ _⟩
  · rw [current_eq apart]
    have low : 0 ≤ b.progress p := clampUnit_nonneg _
    have high : b.progress p ≤ 1 := clampUnit_le_one _
    rcases le_total b.previous b.next with brighter | darker
    · have factor : 0 ≤ b.next - b.previous := sub_nonneg.mpr brighter
      have gained := mul_nonneg factor low
      have all := mul_le_of_le_one_right factor high
      rw [min_eq_left brighter, max_eq_right brighter]
      constructor <;> linarith
    · have factor : 0 ≤ b.previous - b.next := sub_nonneg.mpr darker
      have lost := mul_nonneg factor low
      have all := mul_le_of_le_one_right factor high
      rw [min_eq_right darker, max_eq_left darker]
      constructor <;> linarith

end Brightness

/-- **What the brightness is at every position,** over exact numbers.

* It is between the brightness of the two points, whichever is the greater one.
* If the two points are apart, whichever position is the greater one: up to the point behind it is
  that of the point behind, and from the point ahead on that of the point ahead. In between it
  changes in proportion to the way, and on the whole way it never turns back.
* Exchanging the two points makes no difference. -/
theorem brightness_interpolates (b : Brightness ℚ) :
    (∀ p, b.current p ∈ Set.Icc (min b.previous b.next) (max b.previous b.next)) ∧
    (b.span ≠ 0 →
      (∀ p, b.Onward p b.previousPosition → b.current p = b.previous) ∧
      (∀ p, b.Onward b.nextPosition p → b.current p = b.next) ∧
      (∀ p, b.Onward b.previousPosition p → b.Onward p b.nextPosition →
        (b.current p - b.previous) * b.span = (b.next - b.previous) * (p - b.previousPosition)) ∧
      (∀ p q, b.Onward p q →
        (b.previous ≤ b.next → b.current p ≤ b.current q) ∧
        (b.next ≤ b.previous → b.current q ≤ b.current p)) ∧
      ∀ p, b.reverse.current p = b.current p) := by
  refine ⟨b.current_mem, fun apart => ⟨fun p behind => ?_, fun p beyond => ?_,
    fun p left right => ?_, fun p q onward => ?_, Brightness.current_reverse apart⟩⟩
  · rw [Brightness.current_eq apart, Brightness.progress_behind apart behind, mul_zero, add_zero]
  · rw [Brightness.current_eq apart, Brightness.progress_beyond apart beyond, mul_one,
      add_sub_cancel]
  · rw [Brightness.current_eq apart, Brightness.progress_between apart left right, Brightness.way]
    field_simp
    ring
  · exact ⟨Brightness.current_mono apart onward, Brightness.current_anti apart onward⟩

/-- Light at `10` and dark at `-10`, on a track that is numbered against the train. -/
theorem brightness_interpolates_backward :
    let b : Brightness ℚ := ⟨1, 10, 0, -10⟩
    b.span ≠ 0 ∧ b.Onward 15 b.previousPosition ∧ b.current 15 = 1 ∧
      b.Onward b.nextPosition (-12) ∧ b.current (-12) = 0 ∧
      b.Onward b.previousPosition 5 ∧ b.Onward 5 b.nextPosition ∧ b.current 5 = 3 / 4 ∧
      b.current (-12) ≤ b.current 5 ∧ b.reverse.current 5 = 3 / 4 := by
  intro b
  have span : b.span = -20 := by decide +kernel
  have apart : b.span ≠ 0 := by rw [span]; decide
  have onward : ∀ p q : ℚ, q ≤ p → b.Onward p q := by
    intro p q le
    refine ⟨fun up => ?_, fun _ => le⟩
    rw [span] at up
    exact absurd up (by decide)
  have behind : b.Onward 15 b.previousPosition := onward _ _ (by decide +kernel)
  have beyond : b.Onward b.nextPosition (-12) := onward _ _ (by decide +kernel)
  have left : b.Onward b.previousPosition 5 := onward _ _ (by decide +kernel)
  have right : b.Onward 5 b.nextPosition := onward _ _ (by decide +kernel)
  obtain ⟨-, rest⟩ := brightness_interpolates b
  obtain ⟨start, finish, between, monotone, turned⟩ := rest apart
  have middle : b.current 5 = 3 / 4 := by
    have proportion := between 5 left right
    rw [span] at proportion
    change (b.current 5 - 1) * -20 = (0 - 1) * (5 - 10) at proportion
    linarith
  refine ⟨apart, behind, start 15 behind, beyond, finish _ beyond, left, right, middle, ?_,
    (turned 5).trans middle⟩
  exact (monotone 5 (-12) (onward _ _ (by decide +kernel))).2 (by decide +kernel)

end CabScript
