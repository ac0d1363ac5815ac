import CabScript.Number.Exact

/-!
# Lookup by a number

Scripts name cars, panel entries and sections by numbers. A number selects the entry at the integer
nearest to it; what is out of range selects nothing.
-/

namespace CabScript.Number

/-- The entry of a list at an integer index, counted from `0`. -/
def entry? {α : Type} (l : List α) (i : Int) : Option α :=
  if i < 0 then none else l[i.toNat]?

/-- The entry of a list at an integer index, where a negative index counts from the end: `-1` is
the last entry. -/
def entryFromEitherEnd? {α : Type} (l : List α) (i : Int) : Option α :=
  entry? l (if i < 0 then i + l.length else i)

/-- The entry at the integer nearest to `x`, negative ones counted from the end. -/
def select? {α : Type} (l : List α) (x : Float) : Option α :=
  (nearestInt? x).bind (entryFromEitherEnd? l)

end CabScript.Number
