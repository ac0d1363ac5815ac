/-!
# Where a train lies on the track

A car stands on two axles, each at some position of the track, and reaches half its length beyond
its centre. From these follow the ends of a train and its distance from a position of the track.
The definitions hold for any numbers, so that they can be read over exact ones; trains use doubles.
-/

namespace CabScript

/-- Where an axle stands: its offset from the centre of its car, and its position on the track. -/
structure Footing (α : Type) where
  /-- How far in front of the centre of the car the axle is mounted. -/
  offset : α
  /-- The position on the track. -/
  track : α
deriving Repr

/-- Where a car stands on the track. -/
structure Footprint (α : Type) where
  /-- The leading axle. -/
  front : Footing α
  /-- The trailing axle. -/
  rear : Footing α
  /-- The length of the car. -/
  length : α
deriving Repr

namespace Footprint

variable {α : Type} [Add α] [Sub α] [Mul α] [LT α] [DecidableLT α] [OfNat α 0]
  [OfScientific α]

/-- The position of the car itself, halfway between its axles. -/
def track (f : Footprint α) : α :=
  0.5 * (f.front.track + f.rear.track)

/-- The position of the leading end of the car. -/
def nose (f : Footprint α) : α :=
  f.front.track - f.front.offset + 0.5 * f.length

/-- The position of the trailing end of the car. -/
def tail (f : Footprint α) : α :=
  f.rear.track - f.rear.offset - 0.5 * f.length

/-- The position of the leading end of a train, `0` without a car. -/
def trainFront (cars : List (Footprint α)) : α :=
  match cars.head? with
  | some car => car.nose
  | none => 0

/-- The position of the trailing end of a train, `0` without a car. -/
def trainRear (cars : List (Footprint α)) : α :=
  match cars.getLast? with
  | some car => car.tail
  | none => 0

/-- The signed distance from a train to a position of the track: from its front to what lies ahead,
from its rear to what lies behind, and `0` alongside it. -/
def trainDistance (cars : List (Footprint α)) (position : α) : α :=
  let front := trainFront cars
  let rear := trainRear cars
  if front < position then position - front
  else if position < rear then position - rear
  else 0

end Footprint

end CabScript
