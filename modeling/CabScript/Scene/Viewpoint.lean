import CabScript.Rolling.Train
import CabScript.Scene.World

/-!
# What an animated element sees

A script is evaluated for one animated element. A `Viewpoint` holds everything that the script may
read: the world, the train if there is one, and where the element is.

## Main definitions

* `Viewpoint`, with `Viewpoint.ofWorld` and the functions that place the element.
* `Viewpoint.trainOrZero`, `Viewpoint.ownCarOrZero`, `Viewpoint.carOrZero`: readings with `0.0` for
  what is not there.
-/

namespace CabScript

/-- Everything a script may read in one evaluation. -/
structure Viewpoint where
  /-- The world. -/
  world : World
  /-- The train that train readings are about. -/
  train : Option Train := none
  /-- The place of the element's car in the train. -/
  carIndex : Nat := 0
  /-- Where the element is in the world. -/
  place : Point := {}
  /-- Where the element is on the track. -/
  track : Float := 0.0
  /-- The section of an element that is not part of a train. -/
  sectionIndex : Int := -1
  /-- Whether the element is part of the train. -/
  isOnTrain : Bool := false
  /-- The seconds since the previous evaluation. -/
  elapsed : Float := 0.0
  /-- The state of the object that the element belongs to. -/
  objectState : Int := 0
deriving Repr

namespace Viewpoint

/-- An element at the origin, with no train in sight. -/
def ofWorld (world : World) : Viewpoint := { world }

/-- Makes the element a part of a car of a train. -/
def onCar (v : Viewpoint) (train : Train) (carIndex : Nat) : Viewpoint :=
  { v with train := some train, carIndex, isOnTrain := true }

/-- Shows the element a train that it is no part of. -/
def beside (v : Viewpoint) (train : Train) : Viewpoint :=
  { v with train := some train, isOnTrain := false }

/-- Places the element. -/
def placed (v : Viewpoint) (place : Point) (track : Float) : Viewpoint :=
  { v with place, track }

/-- Puts the element into a section of the route. -/
def inSection (v : Viewpoint) (sectionIndex : Int) : Viewpoint :=
  { v with sectionIndex }

/-- Sets the time since the previous evaluation. -/
def after (v : Viewpoint) (elapsed : Float) : Viewpoint :=
  { v with elapsed }

/-- Sets the state of the object that the element belongs to. -/
def inState (v : Viewpoint) (objectState : Int) : Viewpoint :=
  { v with objectState }

/-- The car of the element. -/
def ownCar? (v : Viewpoint) : Option Car :=
  v.train.bind fun train => train.cars[v.carIndex]?

/-- A reading of the train, `0.0` without one. -/
def trainOrZero (v : Viewpoint) (read : Train → Float) : Float :=
  (v.train.map read).getD 0.0

/-- A reading of the element's own car, `0.0` without one. -/
def ownCarOrZero (v : Viewpoint) (read : Car → Float) : Float :=
  (v.ownCar?.map read).getD 0.0

/-- A reading of the car that a number selects, together with its train, `0.0` without one. -/
def carOrZero (v : Viewpoint) (operand : Float) (read : Train → Car → Float) : Float :=
  v.trainOrZero fun train => ((train.car? operand).map (read train)).getD 0.0

/-- The offset from the element to the camera. -/
def cameraOffset (v : Viewpoint) : Point :=
  v.world.cameraPlace - v.place

/-- `0.0` for the view from the cab and `1.0` for any other. -/
def cameraView (v : Viewpoint) : Float :=
  Number.ofBool (v.world.view ≠ .interior)

/-- The place of the element's car in its train, `-1.0` for an element outside. -/
def carNumber (v : Viewpoint) : Float :=
  if v.isOnTrain then Number.ofNat v.carIndex else -1.0

/-- The place of the section whose aspect the element shows: the one ahead of the train that it is
part of, else its own. -/
def aspectSection? (v : Viewpoint) : Option Int :=
  if v.isOnTrain then v.train.map (·.currentSection + 1) else some v.sectionIndex

/-- The number of the aspect that the element shows, `0.0` if there is none. -/
def sectionAspect (v : Viewpoint) : Float :=
  match v.aspectSection?.bind v.world.section? with
  | some s => s.aspectNumber
  | none => 0.0

/-- `1.0` if the train is the player's and its safety system is on. -/
def panelAvailable (v : Viewpoint) : Float :=
  v.trainOrZero fun train => Number.ofBool (train.isPlayer && v.world.panel.enabled)

/-- A reading of the panel, `0.0` without a train. -/
def panelState (v : Viewpoint) (operand : Float) : Float :=
  v.trainOrZero fun _ => v.world.panel.state operand

end Viewpoint

end CabScript
