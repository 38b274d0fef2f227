import LinProg.Decimal.Expression
import LinProg.Plane.Vertices
import LinProg.Table

/-!
# The table of the graphical method

Each constraint is listed with the equation of its boundary and up to three points to draw it
through: its intercepts and the points where it meets the other boundaries.
-/

namespace LinProg

variable {K : Type} [Scalar K] [Printable K]

/-- A point as a pair of rounded coordinates. -/
def Point.text (p : Point K) : String :=
  "(" ++ Display.compact p.x ++ ", " ++ Display.compact p.y ++ ")"

namespace Problem

def listedPoints : Nat := 3

/-- The points listed for the constraint at an index, whose boundary is given. -/
def drawingPoints (p : Problem K) (index : Nat) (boundary : Line K) : List (Point K) :=
  let others := Line.yAxis :: Line.xAxis :: p.boundaries.eraseIdx index
  (Point.distinct Point.sameTolerance (others.filterMap boundary.meet?)).take listedPoints

def graphicalRow (p : Problem K) (c : Constraint K) (index : Nat) : List String :=
  let names := [p.variableName 0, p.variableName 1]
  let lhs := Display.linearExpression c.coefficients names
  let rhs := Display.short c.rhs
  [lhs ++ " " ++ c.relation.symbol ++ " " ++ rhs, lhs ++ " = " ++ rhs] ++
    padded listedPoints "-" ((p.drawingPoints index c.boundary).map Point.text)

def axesRow (p : Problem K) : List String :=
  let x := p.variableName 0
  let y := p.variableName 1
  [x ++ ", " ++ y ++ " ≥ 0", x ++ " = 0, " ++ y ++ " = 0"] ++
    padded listedPoints "-" [(Point.origin : Point K).text]

def graphicalTable (p : Problem K) : Table :=
  (Table.ofHeaders ["Constraint", "Equation", "Point 1", "Point 2", "Point 3"]).pushAll
    (p.constraints.mapIdx (fun i c => p.graphicalRow c i) ++ [p.axesRow])

end Problem

end LinProg
