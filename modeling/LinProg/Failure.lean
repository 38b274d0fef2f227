/-!
# Why a problem has no answer

The reasons for which reading, checking or solving a problem ends without an optimum, and the
sentence that reports each.
-/

namespace LinProg

/-- The parallel lists of a problem record that are as long as its list of rows. -/
inductive RowList where
  | signs
  | values
  deriving DecidableEq

def RowList.name : RowList → String
  | signs => "constraintSigns"
  | values => "constraintValues"

/-- A reason why there is no optimum. -/
inductive Failure where
  | infeasible
  | unbounded
  /-- The allowed number of pivots did not reach an optimum. -/
  | iterationLimit (limit : Nat)
  | emptyObjective
  /-- A constraint has another number of coefficients than the objective. -/
  | dimensionMismatch (constraint : String) (expected found : Nat)
  /-- A list of the record does not have one entry per row. -/
  | lengthMismatch (list : RowList) (expected found : Nat)
  /-- A number is infinite or undefined. -/
  | nonFinite (location : String)
  /-- The graphical method was asked for a problem that does not lie in the plane. -/
  | notTwoVariables (found : Nat)
  deriving DecidableEq

namespace Failure

def message : Failure → String
  | infeasible => "No feasible point satisfies every constraint"
  | unbounded => "Objective can be improved without limit"
  | iterationLimit limit => "No optimum reached within " ++ limit.repr ++ " iterations"
  | emptyObjective => "Objective function has no coefficients"
  | dimensionMismatch constraint expected found =>
      "Constraint " ++ constraint ++ " has " ++ found.repr ++ " coefficients, expected " ++
        expected.repr
  | lengthMismatch list expected found =>
      list.name ++ " has " ++ found.repr ++ " entries, expected " ++ expected.repr
  | nonFinite location => "Non-finite number in " ++ location
  | notTwoVariables found =>
      "Graphical method needs exactly 2 variables, got " ++ found.repr

end Failure

end LinProg
