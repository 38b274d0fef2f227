import LinProg.Plane.Listing
import LinProg.Plane.Optimum
import LinProg.Simplex.Listing
import LinProg.Solver.Solution

/-!
# Solving

A solver holds the bounds that the methods work with. Each method answers or fails by itself;
`Solver.solve` chooses among them and reports every failure as a solution without an optimum.
-/

namespace LinProg

/-- The bounds that the methods work with. -/
structure Solver (K : Type) where
  /-- The number of pivots allowed to the simplex method. -/
  maxIterations : Nat
  /-- The number of pivots allowed to the general method. -/
  generalIterations : Nat
  /-- The level above which reduced costs and pivot elements count. -/
  tolerance : K
  /-- The amount by which a constraint may be missed. -/
  feasibilityTolerance : K

namespace Solver

variable {K : Type} [Scalar K]

/-- The solver that is used where no other is asked for. -/
def default : Solver K :=
  { maxIterations := 100
    generalIterations := 20
    tolerance := Scalar.ofDecimal 1 10
    feasibilityTolerance := Scalar.ofDecimal 1 8 }

/-- The bounds of a run with the given number of pivots. -/
def limits (s : Solver K) (pivots : Nat) : Limits K :=
  ⟨pivots, s.tolerance, s.feasibilityTolerance⟩

variable [Printable K]

/-- The optimum of a run with its listing. -/
def present (method : Method) (p : Problem K) (run : Run K) : Except Failure (Solution K) :=
  run.outcome.map fun best =>
    .optimal method best.coordinates best.value
      (Simplex.listing p (method == .general) run.trace)

def solveSimplex (s : Solver K) (p : Problem K) : Except Failure (Solution K) := do
  p.validate
  present .simplex p (p.simplex (s.limits s.maxIterations))

def solveGeneral (s : Solver K) (p : Problem K) : Except Failure (Solution K) := do
  p.validate
  present .general p (p.simplex (s.limits s.generalIterations))

variable [Polar K]

def solveGraphical (s : Solver K) (p : Problem K) : Except Failure (Solution K) := do
  p.validate
  let best ← p.bestVertex s.feasibilityTolerance
  return .optimal .graphical best.toList (p.valueAt best) p.graphicalTable

/-- The answer of a method. -/
def solveBy (s : Solver K) (p : Problem K) : Method → Except Failure (Solution K)
  | .graphical => s.solveGraphical p
  | .simplex => s.solveSimplex p
  | .general => s.solveGeneral p

/-- The solution of a problem, whatever becomes of it. -/
def solve (s : Solver K) (p : Problem K) (asked : Method) : Solution K :=
  match p.fault? with
  | some fault => .failed fault.status none
  | none =>
      -- normalising changes neither the size nor whether there is a fault
      let method := Method.route p.normalized asked
      match s.solveBy p.normalized method with
      | .ok solution => solution
      | .error failure => .failed failure.status (some method)

end Solver

end LinProg
