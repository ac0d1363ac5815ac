import CabScript.Arithmetic.Total
import CabScript.Geometry.Point
import CabScript.Rolling.Brightness
import CabScript.Rolling.Footprint

/-!
# Cars

What a script can read of one car: its axles on the track, its doors, its brake pressures, its
speeds and the light around it.
-/

namespace CabScript

/-- An axle, with the track under it. -/
structure Axle where
  /-- How far in front of the centre of the car it is mounted, in metres. -/
  offset : Float := 0.0
  /-- Where it is in the world. -/
  place : Point := {}
  /-- Where it is on the track. -/
  track : Float := 0.0
  /-- The radius of the curve there. -/
  curveRadius : Float := 0.0
  /-- The cant of the curve there. -/
  cant : Float := 0.0
  /-- The gradient there. -/
  pitch : Float := 0.0
deriving Repr

/-- A side of a car. -/
inductive Side where
  | left | right
deriving DecidableEq, Repr

/-- The doors on one side of a car. -/
structure Door where
  /-- `0` closed to `1` fully open. -/
  opening : Float := 0.0
  /-- Whether they are expected to open at the next stop. -/
  willOpen : Bool := false
deriving Repr

/-- The kinds of brake system. -/
inductive BrakeSystem where
  | electromagneticStraightAir | electricCommand | automaticAir
deriving DecidableEq, Repr

/-- The pressures in the brake system of a car, in pascal. -/
structure BrakeGauges where
  /-- The kind of system. -/
  system : BrakeSystem := .electromagneticStraightAir
  /-- Main reservoir. -/
  mainReservoir : Float := 0.0
  /-- Equalizing reservoir. -/
  equalizingReservoir : Float := 0.0
  /-- Brake pipe. -/
  brakePipe : Float := 0.0
  /-- Brake cylinder. -/
  brakeCylinder : Float := 0.0
  /-- Straight air pipe. -/
  straightAirPipe : Float := 0.0
deriving Repr

/-- One car of a train. -/
structure Car where
  /-- The length of the car, in metres. -/
  length : Float := 0.0
  /-- The leading axle. -/
  frontAxle : Axle := {}
  /-- The trailing axle. -/
  rearAxle : Axle := {}
  /-- The speed, negative when moving backward. -/
  speed : Float := 0.0
  /-- The speed that the speedometer shows. -/
  shownSpeed : Float := 0.0
  /-- The acceleration. -/
  acceleration : Float := 0.0
  /-- Whether the car has a motor. -/
  isMotorCar : Bool := false
  /-- The acceleration by the motor, negative when it brakes; it does not tell the direction. -/
  motorAcceleration : Float := 0.0
  /-- The doors on the left. -/
  leftDoor : Door := {}
  /-- The doors on the right. -/
  rightDoor : Door := {}
  /-- The brake system. -/
  brake : BrakeGauges := {}
  /-- The light around the car. -/
  light : Brightness Float := default
deriving Repr

/-- The greatest of a list of openings, and `0.0` if none of them is above zero. -/
def greatestOpening (openings : List Float) : Float :=
  openings.foldl (fun greatest opening => if opening > greatest then opening else greatest) 0.0

namespace Car

/-- The doors on a side. -/
def door (car : Car) : Side → Door
  | .left => car.leftDoor
  | .right => car.rightDoor

/-- The doors on a side, or on both sides. -/
def doors (car : Car) : Option Side → List Door
  | some side => [car.door side]
  | none => [car.leftDoor, car.rightDoor]

/-- How far the doors on a side, or on either side, are open. -/
def doorOpening (car : Car) (side : Option Side) : Float :=
  greatestOpening ((car.doors side).map Door.opening)

/-- The acceleration by the motor in the direction of the train: braking acts against the motion,
driving along the reverser. -/
def directedMotorAcceleration (car : Car) (reverser : Int) : Float :=
  if car.motorAcceleration < 0.0 then car.motorAcceleration * Number.sign car.speed
  else if car.motorAcceleration > 0.0 then car.motorAcceleration * Number.ofInt reverser
  else 0.0

/-- The distance from a point to the middle between the axles. -/
def distanceTo (car : Car) (p : Point) : Float :=
  (car.frontAxle.place.midpoint car.rearAxle.place - p).norm

/-- Where the car stands on the track. -/
def footprint (car : Car) : Footprint Float where
  front := ⟨car.frontAxle.offset, car.frontAxle.track⟩
  rear := ⟨car.rearAxle.offset, car.rearAxle.track⟩
  length := car.length

/-- The position of the car on the track. -/
def track (car : Car) : Float :=
  car.footprint.track

/-- The mean of the curve radii under the axles. -/
def curveRadius (car : Car) : Float :=
  (car.frontAxle.curveRadius + car.rearAxle.curveRadius) / 2.0

/-- The light at the leading axle. -/
def brightness (car : Car) : Float :=
  car.light.current car.frontAxle.track

/-- The squared distances of the axles from a point. -/
def axleDistancesSq (car : Car) (p : Point) : List Float :=
  [(car.frontAxle.place - p).normSq, (car.rearAxle.place - p).normSq]

end Car

end CabScript
