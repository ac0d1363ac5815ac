import CabScript.Cab.Panel
import CabScript.Geometry.Point
import CabScript.Route.Section

/-!
# The world around the trains

The state of the simulation that all scripts of a frame share.
-/

namespace CabScript

/-- Where the camera looks from. -/
inductive View where
  | interior | interiorLookAhead | exterior | track | flyBy | flyByZooming
deriving DecidableEq, Repr

/-- The timetable on display. -/
inductive Timetable where
  | none | standard | custom
deriving DecidableEq, Repr

/-- The state of the simulation. -/
structure World where
  /-- The time of day, in seconds since midnight. -/
  time : Float := 0.0
  /-- Where the camera is. -/
  cameraPlace : Point := {}
  /-- How the camera looks. -/
  view : View := .interior
  /-- The sections of the route. -/
  sections : List Section := []
  /-- The panel of the player's safety system. -/
  panel : Panel := {}
  /-- The timetable on display. -/
  timetable : Timetable := .none
deriving Repr

namespace World

/-- The section at a place of the route; none before its start. -/
def section? (w : World) (place : Int) : Option Section :=
  Number.entry? w.sections place

/-- Whether a timetable is on display. -/
def showsTimetable (w : World) : Bool :=
  w.timetable ≠ .none

end World

end CabScript
