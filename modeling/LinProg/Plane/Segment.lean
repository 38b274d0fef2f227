import LinProg.Plane.Geometry

/-!
# Boundary segments

The boundary line of a constraint is drawn as the segment inside a viewport, which is a
rectangle with one corner at the origin.
-/

namespace LinProg

variable {K : Type} [Scalar K]

/-- The rectangle of the points between the origin and a corner. -/
structure Viewport (K : Type) where
  width : K
  height : K

namespace Viewport

/-- The lines through the sides: left, bottom, right and top. -/
def borders (v : Viewport K) : List (Line K) :=
  [Line.yAxis, Line.xAxis, ⟨1, 0, v.width⟩, ⟨0, 1, v.height⟩]

def contains (v : Viewport K) (tolerance : K) (p : Point K) : Bool :=
  -tolerance ≤ p.x && p.x ≤ v.width + tolerance &&
    -tolerance ≤ p.y && p.y ≤ v.height + tolerance

end Viewport

/-- The order of points by their first and then by their second coordinate. -/
def Point.lexLe (p q : Point K) : Bool := p.x < q.x || p.x == q.x && p.y ≤ q.y

namespace Constraint

/-- The points where the boundary crosses the borders of a viewport, from left to right. -/
def crossings (c : Constraint K) (v : Viewport K) : List (Point K) :=
  let tolerance := Point.sameTolerance
  let inside := (v.borders.filterMap c.boundary.meet?).filter (v.contains tolerance)
  (Point.distinct tolerance inside).mergeSort Point.lexLe

/-- The ends of the boundary inside a viewport. -/
def segment? (c : Constraint K) (v : Viewport K) : Option (Point K × Point K) :=
  match c.crossings v with
  | first :: second :: rest => some (first, (second :: rest).getLast (by simp))
  | _ => none

end Constraint

end LinProg
