import LinProg.Failure
import LinProg.Problem.Relation
import LinProg.Problem.Toggle

/-!
# Linear programs

A problem asks for the best value of a linear objective over the non-negative points that
satisfy finitely many linear constraints. Coefficients are dense rows; a row of another length
than the objective is a fault, found by `Problem.fault?`.
-/

namespace LinProg

/-- A linear function and the direction in which it is optimised. -/
structure Objective (K : Type) where
  coefficients : List K
  sense : Sense
  deriving DecidableEq

structure Constraint (K : Type) where
  name : String
  coefficients : List K
  relation : Relation
  rhs : K
  deriving DecidableEq

/-- A linear program over non-negative variables. -/
structure Problem (K : Type) where
  /-- The names of the variables, for display. -/
  names : List String
  objective : Objective K
  constraints : List (Constraint K)
  toggles : Toggles
  deriving DecidableEq

def numbered (stem : String) (number : Nat) : String := stem ++ number.repr

/-- The names `x1`, …, `xn`. -/
def defaultNames (n : Nat) : List String := (List.range n).map fun j => numbered "x" (j + 1)

@[simp] theorem length_defaultNames (n : Nat) : (defaultNames n).length = n := by
  simp [defaultNames]

variable {K : Type} [Scalar K]

namespace Constraint

/-- The first fault of a constraint in a problem with `n` variables. -/
def fault? (n : Nat) (c : Constraint K) : Option Failure :=
  if c.coefficients.length ≠ n then
    some (.dimensionMismatch c.name n c.coefficients.length)
  else if Scalar.isFinite c.rhs && c.coefficients.all Scalar.isFinite then none
  else some (.nonFinite c.name)

/-- Whether a point satisfies the constraint up to a tolerance. -/
def holdsAt (c : Constraint K) (point : List K) (tolerance : K) : Bool :=
  c.relation.holds (Scalar.dot c.coefficients point) c.rhs tolerance

end Constraint

namespace Problem

/-- The problem that maximises zero without constraints. -/
def zero (names : List String) : Problem K :=
  { names, objective := ⟨names.map fun _ => 0, .max⟩, constraints := [],
    toggles := .none }

/-- The zero problem in the variables `x1`, …, `xn`. -/
def ofDimension (n : Nat) : Problem K := zero (defaultNames n)

def withObjective (p : Problem K) (coefficients : List K) (sense : Sense) : Problem K :=
  { p with objective := ⟨coefficients, sense⟩ }

def addConstraint (p : Problem K) (c : Constraint K) : Problem K :=
  { p with constraints := p.constraints ++ [c] }

def dropConstraint (p : Problem K) (index : Nat) : Problem K :=
  { p with constraints := p.constraints.eraseIdx index }

/-- The number of variables, which is the length of the objective. -/
def size (p : Problem K) : Nat := p.objective.coefficients.length

/-- The name of a variable; one without a name is called by its number. -/
def variableName (p : Problem K) (j : Nat) : String :=
  p.names[j]?.getD (numbered "x" (j + 1))

def objectiveAt (p : Problem K) (point : List K) : K :=
  Scalar.dot p.objective.coefficients point

/-- The first fault of a problem. -/
def fault? (p : Problem K) : Option Failure :=
  if p.size = 0 then some .emptyObjective
  else if p.objective.coefficients.all Scalar.isFinite then
    p.constraints.findSome? (Constraint.fault? p.size)
  else some (.nonFinite "objective")

def validate (p : Problem K) : Except Failure Unit :=
  match p.fault? with
  | none => .ok ()
  | some fault => .error fault

theorem validate_eq_ok {p : Problem K} : p.validate = .ok () ↔ p.fault? = none := by
  unfold validate
  cases p.fault? <;> simp

/-- Whether a point is non-negative and satisfies every constraint, up to a tolerance. -/
def satisfiedBy (p : Problem K) (point : List K) (tolerance : K) : Bool :=
  point.length == p.size && point.all (fun v => decide (-tolerance ≤ v)) &&
    p.constraints.all fun c => c.holdsAt point tolerance

/-- The constraints with their toggles applied. -/
def toggledConstraints (p : Problem K) : List (Constraint K) :=
  match p.toggles.constraints with
  | none => p.constraints
  | some toggles =>
      if toggles.length = p.constraints.length then
        List.zipWith (fun c (t : Toggle) => { c with coefficients := t.apply c.coefficients })
          p.constraints toggles
      else p.constraints

/-- The objective row with its toggle applied. -/
def toggledObjective (p : Problem K) : List K :=
  match p.toggles.objective with
  | none => p.objective.coefficients
  | some toggle => toggle.apply p.objective.coefficients

/-- The same problem written without toggles. -/
def normalized (p : Problem K) : Problem K :=
  { p with
    objective := { p.objective with coefficients := p.toggledObjective }
    constraints := p.toggledConstraints
    toggles := .none }

@[simp] theorem normalized_toggles (p : Problem K) : p.normalized.toggles = .none := rfl

@[simp] theorem normalized_names (p : Problem K) : p.normalized.names = p.names := rfl

@[simp] theorem normalized_sense (p : Problem K) :
    p.normalized.objective.sense = p.objective.sense := rfl

@[simp] theorem size_normalized (p : Problem K) : p.normalized.size = p.size := by
  simp only [normalized, size, toggledObjective]
  split <;> simp

@[simp] theorem length_normalized_constraints (p : Problem K) :
    p.normalized.constraints.length = p.constraints.length := by
  simp only [normalized, toggledConstraints]
  split <;> try split
  all_goals simp_all

/-- A second normalisation has nothing to do. -/
@[simp] theorem normalized_normalized (p : Problem K) : p.normalized.normalized = p.normalized :=
  rfl

end Problem

end LinProg
