import LinProg.Plane.Vertices

/-!
# The best vertex

A problem in the plane is solved by comparing its feasible vertices. The region lies in the
first quadrant, so it is unbounded only along a direction of an axis or of a constraint line; if
the objective improves along one of these, it has no best value.
-/

namespace LinProg

variable {K : Type} [Scalar K]

/-- Whether the first value is strictly better than the second. -/
def Sense.better : Sense → K → K → Bool
  | max, a, b => b < a
  | min, a, b => a < b

namespace Problem

/-- The value of the objective at a point of the plane. -/
def valueAt (p : Problem K) (v : Point K) : K := p.objectiveAt v.toList

def feasibleVertices (p : Problem K) (tolerance : K) : List (Point K) :=
  p.candidateVertices.filter (Point.feasible tolerance p.constraints)

/-- The better of two points, the first one where they are equally good. -/
def betterPoint (p : Problem K) (v w : Point K) : Point K :=
  if p.objective.sense.better (p.valueAt w) (p.valueAt v) then w else v

/-- The directions along which the region may be unbounded. -/
def directions (p : Problem K) : List (Point K) :=
  ⟨1, 0⟩ :: ⟨0, 1⟩ :: p.boundaries.flatMap fun l => [⟨l.b, -l.a⟩, ⟨-l.b, l.a⟩]

/-- Whether every constraint keeps holding along a direction, up to a tolerance. -/
def recedesAlong (p : Problem K) (tolerance : K) (d : Point K) : Bool :=
  p.constraints.all fun c => c.relation.holds (c.boundary.valueAt d) 0 tolerance

/-- Whether the objective improves along a direction by more than a tolerance. -/
def improvesAlong (p : Problem K) (tolerance : K) (d : Point K) : Bool :=
  match p.objective.sense with
  | .max => tolerance < p.valueAt d
  | .min => p.valueAt d < -tolerance

variable [Polar K]

/-- The direction as a vector of length one, unless it is too short to have a direction. -/
def unitVector? (tolerance : K) (d : Point K) : Option (Point K) :=
  let length := Polar.hypot d.x d.y
  if length < tolerance then none else some ⟨d.x / length, d.y / length⟩

/-- Whether the region recedes in a direction and the objective improves on the way. -/
def unboundedAlong (p : Problem K) (tolerance : K) (d : Point K) : Bool :=
  match unitVector? tolerance d with
  | none => false
  | some u =>
      if u.x < -tolerance || u.y < -tolerance then false
      else p.recedesAlong tolerance u && p.improvesAlong tolerance u

/-- The best vertex of a problem in two variables. -/
def bestVertex (p : Problem K) (tolerance : K) : Except Failure (Point K) :=
  if p.size ≠ 2 then .error (.notTwoVariables p.size)
  else match p.feasibleVertices tolerance with
    | [] => .error .infeasible
    | first :: rest =>
        -- a region with a vertex may still be unbounded
        if p.directions.any (p.unboundedAlong tolerance) then .error .unbounded
        else .ok (rest.foldl p.betterPoint first)

end Problem

end LinProg
