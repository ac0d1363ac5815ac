/-!
# Points in the world

Positions in metres, with the few vector operations that distances need.
-/

namespace CabScript

/-- A position in the world, or the offset between two. -/
structure Point where
  /-- The first coordinate. -/
  x : Float := 0.0
  /-- The second coordinate. -/
  y : Float := 0.0
  /-- The third coordinate. -/
  z : Float := 0.0
deriving Repr

namespace Point

instance : Add Point where
  add p q := ⟨p.x + q.x, p.y + q.y, p.z + q.z⟩

instance : Sub Point where
  sub p q := ⟨p.x - q.x, p.y - q.y, p.z - q.z⟩

/-- The point with every coordinate multiplied by `factor`. -/
def scale (p : Point) (factor : Float) : Point :=
  ⟨p.x * factor, p.y * factor, p.z * factor⟩

/-- The squared distance from the origin. -/
def normSq (p : Point) : Float :=
  p.x * p.x + p.y * p.y + p.z * p.z

/-- The distance from the origin. -/
def norm (p : Point) : Float :=
  p.normSq.sqrt

/-- The point halfway between two points. -/
def midpoint (p q : Point) : Point :=
  (p + q).scale 0.5

end Point

end CabScript
