import LinProg.Problem.Basic

/-!
# Tableaus

The constraints become equations over the columns of the tableau: the variables of the problem,
a slack or surplus for each inequality, and an artificial variable for each row that is not
solved by its slack. Right-hand sides start non-negative, so the initial basic solution is
feasible for the equations.
-/

namespace LinProg

/-- What a column of the tableau stands for. The auxiliary columns name their row. -/
inductive Column where
  | decision (index : Nat)
  | slack (row : Nat)
  | surplus (row : Nat)
  | artificial (row : Nat)
  deriving DecidableEq

/-- One equation of a tableau, solved for its basic column. -/
structure Row (K : Type) where
  /-- The position of the basic column. -/
  basic : Nat
  entries : List K
  rhs : K
  deriving DecidableEq

variable {K : Type} [Scalar K]

namespace Constraint

/-- The constraint with a right-hand side that is not negative. -/
def standardized (c : Constraint K) : Constraint K :=
  if c.rhs < 0 then
    { c with
      coefficients := c.coefficients.map (- ·)
      relation := c.relation.flipped
      rhs := -c.rhs }
  else c

end Constraint

namespace Relation

/-- The column that turns an inequality into an equation. -/
def slackColumn? (row : Nat) : Relation → Option Column
  | le => some (.slack row)
  | ge => some (.surplus row)
  | eq => none

/-- The column that solves a row whose slack does not. -/
def artificialColumn? (row : Nat) : Relation → Option Column
  | le => none
  | _ => some (.artificial row)

/-- The column for which a row is solved at first. -/
def basicColumn (row : Nat) : Relation → Column
  | le => .slack row
  | _ => .artificial row

end Relation

namespace Column

def isArtificial : Column → Bool
  | artificial _ => true
  | _ => false

/-- The coefficient of a column in the row of a constraint. -/
def entry (c : Constraint K) (row : Nat) : Column → K
  | decision j => c.coefficients[j]?.getD 0
  | slack i => if i = row then 1 else 0
  | surplus i => if i = row then -1 else 0
  | artificial i => if i = row then 1 else 0

end Column

/-- The coefficient of a column, zero past the end. -/
def Row.entry (r : Row K) (column : Nat) : K := r.entries[column]?.getD 0

namespace Problem

/-- The constraints with right-hand sides that are not negative. -/
def standardRows (p : Problem K) : List (Constraint K) :=
  p.constraints.map Constraint.standardized

/-- The columns of a problem that are not artificial. -/
def realColumns (p : Problem K) : List Column :=
  (List.range p.size).map .decision ++
    (p.standardRows.mapIdx fun i c => c.relation.slackColumn? i).filterMap id

def artificialColumns (p : Problem K) : List Column :=
  (p.standardRows.mapIdx fun i c => c.relation.artificialColumn? i).filterMap id

/-- The columns of a problem: variables, slacks and surpluses, artificial variables. -/
def columns (p : Problem K) : List Column := p.realColumns ++ p.artificialColumns

/-- The rows of the tableau of a problem before the first pivot. -/
def initialRows (p : Problem K) : List (Row K) :=
  let columns := p.columns
  p.standardRows.mapIdx fun i c =>
    { basic := columns.idxOf (c.relation.basicColumn i)
      entries := columns.map (Column.entry c i)
      rhs := c.rhs }

/-- The costs of the first phase, which drives the artificial variables to zero. -/
def artificialCosts (p : Problem K) : List K :=
  p.columns.map fun column => if column.isArtificial then -1 else 0

/-- The objective as a function to be maximised. -/
def maximized (p : Problem K) : List K :=
  match p.objective.sense with
  | .max => p.objective.coefficients
  | .min => p.objective.coefficients.map (- ·)

/-- The costs of the second phase: the objective as a function to be maximised. -/
def objectiveCosts (p : Problem K) : List K :=
  p.columns.map fun
    | .decision j => p.maximized[j]?.getD 0
    | _ => 0

end Problem

end LinProg
