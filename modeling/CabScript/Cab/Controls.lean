import CabScript.Number.Exact

/-!
# The driver's controls

Handle positions are whole notches. The linear brake scale lays the positions of a brake handle on
one line: released, the hold brake where one is fitted, the notches, emergency.
-/

namespace CabScript

/-- The reverser: `-1` backward, `0` neutral, `1` forward. -/
structure Reverser where
  /-- The position that the driver has chosen. -/
  selected : Int := 0
  /-- The position that is in effect. -/
  inEffect : Int := 0
deriving DecidableEq, Repr

/-- The power handle. -/
structure PowerHandle where
  /-- The notch that the driver has chosen. -/
  notch : Int := 0
  /-- The highest notch. -/
  highest : Int := 0
deriving DecidableEq, Repr

/-- How a brake handle divides its way. -/
inductive BrakeHandleKind where
  /-- Notches from released up. -/
  | notched
  /-- The three positions of an air brake: release `0`, lap `1`, service `2`. -/
  | airBrake
deriving DecidableEq, Repr

/-- The brake handle. -/
structure BrakeHandle where
  /-- How the handle divides its way. -/
  kind : BrakeHandleKind := .notched
  /-- The position that the driver has chosen. -/
  notch : Int := 0
  /-- The highest notch of a notched handle. -/
  highest : Int := 0
deriving DecidableEq, Repr

/-- All controls of a cab. -/
structure Controls where
  /-- The reverser. -/
  reverser : Reverser := {}
  /-- The power handle. -/
  power : PowerHandle := {}
  /-- The brake handle. -/
  brake : BrakeHandle := {}
  /-- Whether the emergency brake is applied. -/
  emergency : Bool := false
  /-- Whether a hold brake is fitted. -/
  hasHoldBrake : Bool := false
  /-- Whether the hold brake is applied. -/
  holdBrake : Bool := false
deriving DecidableEq, Repr

namespace Controls

/-- Whether the brake handle is that of an air brake. -/
def isAirBrake (c : Controls) : Bool :=
  c.brake.kind = .airBrake

/-- The number of brake notches that a gauge shows; those of an air brake are lap and service. -/
def brakeNotches (c : Controls) : Int :=
  match c.brake.kind with
  | .airBrake => 2
  | .notched => c.brake.highest

/-- How many places the hold brake takes on the linear scale. -/
def holdPlaces (c : Controls) : Int :=
  if c.hasHoldBrake then 1 else 0

/-- The highest place on the linear scale, that of the emergency brake. -/
def linearHighest (c : Controls) : Int :=
  match c.brake.kind with
  | .airBrake => 3
  | .notched => c.brake.highest + c.holdPlaces + 1

/-- The place of the brake on the linear scale. -/
def linearNotch (c : Controls) : Int :=
  if c.emergency then c.linearHighest
  else
    match c.brake.kind with
    | .airBrake => c.brake.notch
    | .notched =>
      if !c.hasHoldBrake then c.brake.notch
      else if 0 < c.brake.notch then c.brake.notch + 1
      else if c.holdBrake then 1
      else 0

end Controls

end CabScript
