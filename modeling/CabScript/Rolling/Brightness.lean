/-!
# Brightness along the track

The brightness around a car is given at two points of the track and interpolated between them. The
definitions hold for any numbers, so that they can be read over exact ones; cars use doubles.
-/

namespace CabScript

/-- Two points of the track with the brightness at each, `0` dark and `1` full daylight. -/
structure Brightness (α : Type) where
  /-- The brightness at the point behind. -/
  previous : α
  /-- Where the point behind lies. -/
  previousPosition : α
  /-- The brightness at the point ahead. -/
  next : α
  /-- Where the point ahead lies. -/
  nextPosition : α
deriving Repr

namespace Brightness

/-- Full daylight. -/
instance : Inhabited (Brightness Float) where
  default := { previous := 1.0, previousPosition := 0.0, next := 1.0, nextPosition := 0.0 }

variable {α : Type} [Add α] [Sub α] [Mul α] [Div α] [LT α] [DecidableLT α] [BEq α]
  [OfNat α 0] [OfNat α 1]

/-- A number clamped to the range from `0` to `1`. What is neither below `0` nor above `1` stays as
it is. -/
def clampUnit (t : α) : α :=
  let t := if t < 0 then 0 else t
  if 1 < t then 1 else t

/-- The distance between the two points, negative where the track is numbered against the train. -/
def span (b : Brightness α) : α :=
  b.nextPosition - b.previousPosition

/-- How far along the way from the point behind to the point ahead a position lies, from `0` to
`1`. -/
def progress (b : Brightness α) (position : α) : α :=
  clampUnit ((position - b.previousPosition) / b.span)

/-- The brightness at a position of the track. Two points in one place count as the one behind. -/
def current (b : Brightness α) (position : α) : α :=
  if b.span == 0 then b.previous
  else
    let t := b.progress position
    b.previous * (1 - t) + b.next * t

end Brightness

end CabScript
