import LinProg.Plane.Geometry

/-!
# Candidate vertices

A vertex of the feasible region is a point where two boundaries meet, each of them the line of a
constraint or an axis. The candidates are all such points.
-/

namespace LinProg

variable {K : Type} [Scalar K]

namespace Line

/-- The points where two lines of a list meet, by the earlier line first. -/
def meets : List (Line K) → List (Point K)
  | [] => []
  | l :: rest => rest.filterMap l.meet? ++ meets rest

def intercepts (l : Line K) : List (Point K) := [yAxis, xAxis].filterMap l.meet?

end Line

namespace Problem

def boundaries (p : Problem K) : List (Line K) := p.constraints.map Constraint.boundary

/-- The points where constraint lines meet, then where they meet the axes, then the origin. -/
def candidateVertices (p : Problem K) : List (Point K) :=
  Line.meets p.boundaries ++ p.boundaries.flatMap Line.intercepts ++ [Point.origin]

end Problem

end LinProg
