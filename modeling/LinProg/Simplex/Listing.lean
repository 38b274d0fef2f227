import LinProg.Decimal.Expression
import LinProg.Simplex.Run
import LinProg.Table

/-!
# The table of the simplex method

A run is listed as the tableaus it visits, each under a title that names the choice made there.
The listing may begin with the problem in standard form.
-/

namespace LinProg

variable {K : Type} [Scalar K] [Printable K]

def Problem.columnName (p : Problem K) : Column → String
  | .decision j => p.variableName j
  | .slack i => numbered "s" (i + 1)
  | .surplus i => numbered "e" (i + 1)
  | .artificial i => numbered "a" (i + 1)

def Problem.columnNames (p : Problem K) : List String := p.columns.map p.columnName

namespace Simplex

def cell (value : K) : String := Display.fixed 2 value

def nameAt (names : List String) (position : Nat) : String := names[position]?.getD ""

def header (names : List String) : List String :=
  ["Cb", "Basis"] ++ names ++ ["RHS", "Ratio"]

/-- What the title of a snapshot says of its choice. -/
def choiceText (names : List String) (rows : List (Row K)) : Option (Choice K) → String
  | none => ": optimal"
  | some choice =>
      ": " ++ nameAt names choice.entering ++ " enters, " ++
        match choice.leaving.bind (rows[·]?) with
        | none => "no leaving row (unbounded)"
        | some r =>
            nameAt names r.basic ++ " leaves, pivot = " ++ cell (r.entry choice.entering)

/-- The number of a phase in a run with two phases. -/
def phaseText (twoPhases : Bool) : Phase → String
  | .one => if twoPhases then " (phase 1)" else ""
  | .two => if twoPhases then " (phase 2)" else ""

def title (names : List String) (twoPhases : Bool) (s : Snapshot K) : String :=
  "Iteration " ++ s.iteration.repr ++ phaseText twoPhases s.phase ++
    choiceText names s.rows s.choice

/-- The line of an equation with the ratio that it gives. -/
def rowLine (names : List String) (costs : List K) (r : Row K) (ratio : Option K) :
    List String :=
  [cell (r.basicCost costs), nameAt names r.basic] ++ (r.entries ++ [r.rhs]).map cell ++
    [ratio.elim "-" cell]

/-- The ratio at each row of a snapshot. -/
def ratiosOf (s : Snapshot K) : List (Option K) :=
  s.choice.elim (s.rows.map fun _ => none) Choice.ratios

def snapshotLines (names : List String) (twoPhases : Bool) (s : Snapshot K) :
    List (List String) :=
  [[title names twoPhases s], header names] ++
    List.zipWith (rowLine names s.costs) s.rows (ratiosOf s) ++
    [["", "Cj"] ++ s.costs.map cell,
      ["", "Δj"] ++ s.reduced.map cell ++ ["Z = " ++ cell s.value]]

/-- The lines of the problem in standard form. -/
def standardLines (p : Problem K) : List (List String) :=
  let names := p.columnNames
  let objective := p.objective.sense.name ++ " Z = " ++
    Display.linearExpression p.objective.coefficients (names.take p.size)
  let artificial := "max W = " ++ Display.linearExpression p.artificialCosts names
  let equation (r : Row K) :=
    Display.linearExpression r.entries names ++ " = " ++ Display.short r.rhs
  [["Standard form"], ["", "Z", objective]] ++
    (if p.artificialColumns.isEmpty then [] else [["", "W", artificial]]) ++
    List.zipWith (fun (c : Constraint K) r => ["", c.name, equation r]) p.constraints
      p.initialRows

def listing (p : Problem K) (withStandardForm : Bool) (trace : List (Snapshot K)) : Table :=
  let names := p.columnNames
  let twoPhases := !p.artificialColumns.isEmpty
  (Table.ofHeaders (header names)).pushAll
    ((if withStandardForm then standardLines p else []) ++
      trace.flatMap (snapshotLines names twoPhases))

end Simplex

end LinProg
