import LinProg.Plane.Vertices

/-!
# The feasible region

The region of a problem in two variables is drawn as the polygon of its vertices, ordered by the
angle at which they are seen from their centroid.
-/

namespace LinProg

variable {K : Type} [Scalar K]

namespace Problem

/-- The tolerance up to which the points of a drawing are feasible. -/
def drawingTolerance : K := Scalar.ofDecimal 1 8

/-- The feasible vertices, each of them once. -/
def distinctVertices (p : Problem K) : List (Point K) :=
  let tolerance := drawingTolerance
  Point.distinct Point.sameTolerance
    (p.candidateVertices.filter (Point.feasible tolerance p.constraints))

end Problem

namespace Point

def centroid (points : List (Point K)) : Point K :=
  let count := Scalar.ofNat points.length
  ⟨Scalar.sum (points.map Point.x) / count, Scalar.sum (points.map Point.y) / count⟩

variable [Polar K]

/-- The angle at which a point is seen from another one. -/
def angleFrom (center p : Point K) : K := Polar.atan2 (p.y - center.y) (p.x - center.x)

/-- The points by the angle at which they are seen from a center. -/
def sortByAngle (center : Point K) (points : List (Point K)) : List (Point K) :=
  points.mergeSort fun p q => Polar.angleLe (angleFrom center p) (angleFrom center q)

end Point

/-- The vertices of the feasible region, counterclockwise. There are none if the problem has a
fault or does not lie in the plane. -/
def Problem.region [Polar K] (p : Problem K) : List (Point K) :=
  if p.size ≠ 2 || p.fault?.isSome then []
  else
    let vertices := p.distinctVertices
    if vertices.length < 3 then vertices
    else Point.sortByAngle (Point.centroid vertices) vertices

end LinProg
