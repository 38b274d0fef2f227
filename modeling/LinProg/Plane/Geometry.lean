import LinProg.Problem.Basic

/-!
# Points and lines of the plane

The boundary of a constraint in two variables is a line. Two lines meet in one point unless
their determinant is too small to tell them from parallels.
-/

namespace LinProg

structure Point (K : Type) where
  x : K
  y : K
  deriving DecidableEq

/-- The line `a * x + b * y = c`. -/
structure Line (K : Type) where
  a : K
  b : K
  c : K
  deriving DecidableEq

variable {K : Type} [Scalar K]

namespace Point

def origin : Point K := ⟨0, 0⟩

def toList (p : Point K) : List K := [p.x, p.y]

/-- Whether two points differ by at most a tolerance in each coordinate. -/
def near (tolerance : K) (p q : Point K) : Bool :=
  Scalar.abs (p.x - q.x) ≤ tolerance && Scalar.abs (p.y - q.y) ≤ tolerance

/-- The kept points followed by those of the list that are near to none before them. -/
def addDistinct (tolerance : K) (kept : List (Point K)) : List (Point K) → List (Point K)
  | [] => kept
  | p :: rest =>
      if kept.any (near tolerance · p) then addDistinct tolerance kept rest
      else addDistinct tolerance (kept ++ [p]) rest

/-- The points of a list that are near to none before them. -/
def distinct (tolerance : K) (points : List (Point K)) : List (Point K) :=
  addDistinct tolerance [] points

/-- The distance up to which points that are shown count as one. -/
def sameTolerance : K := Scalar.ofDecimal 1 9

end Point

namespace Line

/-- The line on which the second coordinate is zero. -/
def xAxis : Line K := ⟨0, 1, 0⟩

/-- The line on which the first coordinate is zero. -/
def yAxis : Line K := ⟨1, 0, 0⟩

def valueAt (l : Line K) (p : Point K) : K := l.a * p.x + l.b * p.y

def det (l m : Line K) : K := l.a * m.b - m.a * l.b

/-- The magnitude below which a determinant belongs to parallel lines. -/
def parallelTolerance : K := Scalar.ofDecimal 1 8

/-- The point where two lines meet, if they are not parallel. Adding zero clears the sign of a
coordinate that is zero. -/
def meet? (l m : Line K) : Option (Point K) :=
  if Scalar.abs (l.det m) < parallelTolerance then none
  else some
    ⟨(l.c * m.b - m.c * l.b) / l.det m + 0, (l.a * m.c - m.a * l.c) / l.det m + 0⟩

end Line

/-- The boundary line of a constraint in two variables. A missing coefficient is zero. -/
def Constraint.boundary (c : Constraint K) : Line K :=
  ⟨c.coefficients[0]?.getD 0, c.coefficients[1]?.getD 0, c.rhs⟩

/-- Whether a point lies in the first quadrant and satisfies the constraints, up to a
tolerance. -/
def Point.feasible (tolerance : K) (constraints : List (Constraint K)) (p : Point K) : Bool :=
  -- stated by what fails, so that an undefined coordinate is left to the constraints
  if p.x < -tolerance || p.y < -tolerance then false
  else constraints.all fun c => c.relation.holds (c.boundary.valueAt p) c.rhs tolerance

end LinProg
