import CabScript.Number.Lookup

/-!
# Signal sections

A route is divided into sections, each of which shows one of its aspects.
-/

namespace CabScript

/-- A section of the route. -/
structure Section where
  /-- The numbers of its aspects, `0` for red. -/
  aspects : List Int := []
  /-- Which aspect is shown; there is none at a place outside the list. -/
  current : Int := 0
deriving DecidableEq, Repr

/-- The number of the aspect shown, `0.0` if there is none. -/
def Section.aspectNumber (s : Section) : Float :=
  match Number.entry? s.aspects s.current with
  | some number => Number.ofInt number
  | none => 0.0

end CabScript
