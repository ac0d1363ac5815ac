import CabScript.Number.Lookup

/-!
# The panel of the safety system

The safety system of the player's train shows its state as a row of whole numbers.
-/

namespace CabScript

/-- The panel of a safety system. -/
structure Panel where
  /-- Whether the safety system is switched on. -/
  enabled : Bool := false
  /-- The numbers shown. -/
  readings : List Int := []
deriving DecidableEq, Repr

/-- The reading at the place nearest to an operand; `0.0` beyond the panel, before its start and
while the system is off. -/
def Panel.state (p : Panel) (operand : Float) : Float :=
  if p.enabled then
    match (Number.nearestInt? operand).bind (Number.entry? p.readings) with
    | some reading => Number.ofInt reading
    | none => 0.0
  else 0.0

end CabScript
