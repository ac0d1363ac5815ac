import CabScript.Cab.Controls
import CabScript.Number.Lookup
import CabScript.Rolling.Car

/-!
# Trains

A row of cars, the first in front, with the controls of its cab. Scripts name cars by numbers, also
from the end.
-/

namespace CabScript

/-- A train. -/
structure Train where
  /-- Whether the player drives it. -/
  isPlayer : Bool := false
  /-- The cars from front to rear. -/
  cars : List Car := []
  /-- The place of the car with the driver. -/
  driverCar : Nat := 0
  /-- The number of the destination. -/
  destination : Int := 0
  /-- The controls. -/
  controls : Controls := {}
  /-- Whether the constant speed device is on. -/
  constSpeed : Bool := false
  /-- Whether a constant speed device is fitted. -/
  hasConstSpeed : Bool := false
  /-- The section of the route that the train is in. -/
  currentSection : Int := 0
deriving Repr

namespace Train

/-- The car that a number selects, negative numbers from the rear. -/
def car? (t : Train) (operand : Float) : Option Car :=
  Number.select? t.cars operand

/-- The car with the driver. -/
def driver? (t : Train) : Option Car :=
  t.cars[t.driverCar]?

/-- Where the cars stand on the track. -/
def footprints (t : Train) : List (Footprint Float) :=
  t.cars.map Car.footprint

/-- The position of the leading end on the track. -/
def frontTrack (t : Train) : Float :=
  Footprint.trainFront t.footprints

/-- The position of the trailing end on the track. -/
def rearTrack (t : Train) : Float :=
  Footprint.trainRear t.footprints

/-- The signed distance from the train to a position of the track. -/
def trackDistance (t : Train) (position : Float) : Float :=
  Footprint.trainDistance t.footprints position

/-- The lesser of the least so far and the next number: the next one unless the least is at most
it. -/
def lesser (least : Option Float) (d : Float) : Option Float :=
  match least with
  | some n => if n ≤ d then some n else some d
  | none => some d

/-- The squared distances of the axles from a point, from the front of the train to its rear. -/
def axleDistancesSq (t : Train) (p : Point) : List Float :=
  t.cars.flatMap (Car.axleDistancesSq · p)

/-- The squared distance that is found, from the first one on. -/
def leastSq (ds : List Float) : Option Float :=
  ds.foldl lesser none

/-- The distance from a point to the nearest axle, `0.0` without a car. -/
def distance (t : Train) (p : Point) : Float :=
  match leastSq (t.axleDistancesSq p) with
  | some d => d.sqrt
  | none => 0.0

/-- The directed acceleration by the motor of the first motor car, `0.0` without one. -/
def motorAcceleration (t : Train) : Float :=
  match t.cars.find? Car.isMotorCar with
  | some car => car.directedMotorAcceleration t.controls.reverser.inEffect
  | none => 0.0

/-- How far the doors of any car are open, on a side or on either. -/
def doorOpening (t : Train) (side : Option Side) : Float :=
  greatestOpening (t.cars.map (Car.doorOpening · side))

/-- Whether any car's doors on a side are expected to open. -/
def doorsWillOpen (t : Train) (side : Side) : Bool :=
  t.cars.any fun car => (car.door side).willOpen

/-- Whether the driver's car has an automatic air brake. -/
def hasAirBrake (t : Train) : Bool :=
  t.driver?.any fun car => car.brake.system = .automaticAir

end Train

end CabScript
