import CabScript.Scene.Viewpoint

/-!
# Queries

What scripts can ask of the scene. A `Query` is about the element, its train or its own car; an
`IndexedQuery` takes a number that selects a car or a place of the panel. Some queries of the set
have no answer in this simulation; they are listed as `Unprovided` and read `0.0`.

## Main definitions

* `CarReading`: readings that exist both for the element's own car and for a selected car.
* `CarQuery`, `TrainQuery`, `Query`, `IndexedQuery`, each with the value it reads.
-/

namespace CabScript

/-- A reading of a car that scripts can ask for the element's own car and for any other. -/
inductive CarReading where
  | speed | shownSpeed | acceleration
  | mainReservoir | equalizingReservoir | brakePipe | brakeCylinder | straightAirPipe
deriving DecidableEq, Repr

/-- The value of a reading. -/
def CarReading.read : CarReading → Car → Float
  | speed, car => car.speed
  | shownSpeed, car => car.shownSpeed
  | acceleration, car => car.acceleration
  | mainReservoir, car => car.brake.mainReservoir
  | equalizingReservoir, car => car.brake.equalizingReservoir
  | brakePipe, car => car.brake.brakePipe
  | brakeCylinder, car => car.brake.brakeCylinder
  | straightAirPipe, car => car.brake.straightAirPipe

/-- A query about a selected car. -/
inductive CarQuery where
  | reading (r : CarReading)
  | motorAcceleration | distance | trackDistance
  | curveRadius | frontCurveRadius | rearCurveRadius | cant | pitch
  | doors (side : Option Side)
  | doorTarget (side : Side)
  | brightness
  /-- The distance run, which this simulation does not count. -/
  | odometer
deriving DecidableEq, Repr

/-- The value of a query about a car of a train. -/
def CarQuery.read (v : Viewpoint) (train : Train) (car : Car) : CarQuery → Float
  | reading r => r.read car
  | motorAcceleration => car.directedMotorAcceleration train.controls.reverser.inEffect
  | distance => car.distanceTo v.place
  | trackDistance => v.track - car.track
  | curveRadius => car.curveRadius
  | frontCurveRadius => car.frontAxle.curveRadius
  | rearCurveRadius => car.rearAxle.curveRadius
  | cant => car.frontAxle.cant
  | pitch => car.frontAxle.pitch
  | doors side => car.doorOpening side
  | doorTarget side => Number.ofBool (car.door side).willOpen
  | brightness => car.brightness
  | odometer => 0.0

/-- A query about the train. -/
inductive TrainQuery where
  | isPlayer | carCount | destination
  | motorAcceleration | distance | trackDistance
  | doors (side : Option Side)
  | doorTarget (side : Side)
  | reverser | powerNotch | powerNotches
  | brakeNotch | brakeNotches | brakeNotchLinear | brakeNotchesLinear
  | emergencyBrake | hasAirBrake | holdBrake | hasHoldBrake | constSpeed | hasConstSpeed
deriving DecidableEq, Repr

/-- The value of a query about a train. -/
def TrainQuery.read (v : Viewpoint) (train : Train) : TrainQuery → Float
  | isPlayer => Number.ofBool train.isPlayer
  | carCount => Number.ofNat train.cars.length
  | destination => Number.ofInt train.destination
  | motorAcceleration => train.motorAcceleration
  | distance => train.distance v.place
  | trackDistance => train.trackDistance v.track
  | doors side => train.doorOpening side
  | doorTarget side => Number.ofBool (train.doorsWillOpen side)
  | reverser => Number.ofInt train.controls.reverser.selected
  | powerNotch => Number.ofInt train.controls.power.notch
  | powerNotches => Number.ofInt train.controls.power.highest
  | brakeNotch => Number.ofInt train.controls.brake.notch
  | brakeNotches => Number.ofInt train.controls.brakeNotches
  | brakeNotchLinear => Number.ofInt train.controls.linearNotch
  | brakeNotchesLinear => Number.ofInt train.controls.linearHighest
  | emergencyBrake => Number.ofBool train.controls.emergency
  | hasAirBrake => Number.ofBool train.hasAirBrake
  | holdBrake => Number.ofBool train.controls.holdBrake
  | hasHoldBrake => Number.ofBool train.controls.hasHoldBrake
  | constSpeed => Number.ofBool train.constSpeed
  | hasConstSpeed => Number.ofBool train.hasConstSpeed

/-- A coordinate of the camera's offset. -/
inductive Axis where
  | x | y | z
deriving DecidableEq, Repr

/-- The coordinate of a point along an axis. -/
def Axis.of : Axis → Point → Float
  | x, p => p.x
  | y, p => p.y
  | z, p => p.z

/-- Queries of the instruction set that have no answer in this simulation. -/
inductive Unprovided where
  | curveRadius | frontCurveRadius | rearCurveRadius | cant | pitch | odometer
  | pilotLamp | passAlarm | stationAdjustAlarm
  | klaxon | primaryKlaxon | secondaryKlaxon | musicKlaxon
  | distanceNextStation | stopsNextStation | nextStation | nextStationStop | routeLimit
  | terminalStation
deriving DecidableEq, Repr

/-- A query without an operand. -/
inductive Query where
  /-- The seconds since the previous evaluation. -/
  | elapsed
  | objectState | time
  | cameraDistance
  | cameraOffset (axis : Axis)
  | cameraView
  /-- A reading of the element's own car. -/
  | ownCar (r : CarReading)
  /-- The number of the element's own car. -/
  | carNumber
  | train (q : TrainQuery)
  | panelAvailable | showsTimetable | sectionAspect
  | unprovided (u : Unprovided)
deriving DecidableEq, Repr

/-- The value of a query. -/
def Query.read (v : Viewpoint) : Query → Float
  | elapsed => v.elapsed
  | objectState => Number.ofInt v.objectState
  | time => v.world.time
  | cameraDistance => v.cameraOffset.norm
  | cameraOffset axis => axis.of v.cameraOffset
  | cameraView => v.cameraView
  | ownCar r => v.ownCarOrZero r.read
  | carNumber => v.carNumber
  | train q => v.trainOrZero fun t => q.read v t
  | panelAvailable => v.panelAvailable
  | showsTimetable => Number.ofBool v.world.showsTimetable
  | sectionAspect => v.sectionAspect
  | unprovided _ => 0.0

/-- Queries about a station selected by a number, which have no answer in this simulation. -/
inductive StationQuery where
  | distance | stops
deriving DecidableEq, Repr

/-- A query with a number as operand. -/
inductive IndexedQuery where
  /-- A query about the car that the number selects. -/
  | car (q : CarQuery)
  /-- The reading of the safety panel at a place. -/
  | panel
  | station (q : StationQuery)
deriving DecidableEq, Repr

/-- The value of a query at an operand. -/
def IndexedQuery.read (v : Viewpoint) (operand : Float) : IndexedQuery → Float
  | car q => v.carOrZero operand fun train selected => q.read v train selected
  | panel => v.panelState operand
  | station _ => 0.0

/-- Whether the operand is the number of a car. -/
def IndexedQuery.selectsCar : IndexedQuery → Bool
  | car _ => true
  | panel | station _ => false

end CabScript
