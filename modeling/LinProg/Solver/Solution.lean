import LinProg.Solver.Method
import LinProg.Table

/-!
# Solutions

What is reported about a problem: a status and, where there is an optimum, a point, its value
and the table that shows how it was found.
-/

namespace LinProg

inductive Status where
  | optimal
  | infeasible
  | unbounded
  | iterationLimit
  | invalidInput
  deriving DecidableEq

def Status.name : Status → String
  | optimal => "optimal"
  | infeasible => "infeasible"
  | unbounded => "unbounded"
  | iterationLimit => "iteration_limit"
  | invalidInput => "invalid_input"

/-- The status that reports a failure. -/
def Failure.status : Failure → Status
  | infeasible => .infeasible
  | unbounded => .unbounded
  | iterationLimit _ => .iterationLimit
  | _ => .invalidInput

/-- The answer to a problem. -/
structure Solution (K : Type) where
  status : Status
  /-- The method used, unless the problem was not accepted. -/
  method : Option Method
  coordinates : List K
  value : K
  table : Table
  deriving DecidableEq

namespace Solution

variable {K : Type} [Scalar K]

/-- The solution that shows an optimum. -/
def optimal (method : Method) (coordinates : List K) (value : K) (table : Table) : Solution K :=
  ⟨.optimal, some method, coordinates, value, table⟩

/-- The solution without an optimum. -/
def failed (status : Status) (method : Option Method) : Solution K :=
  ⟨status, method, [], 0, .empty⟩

/-- Whether the solution shows an optimum. -/
def isValid (s : Solution K) : Bool := s.status == .optimal

end Solution

end LinProg
