import LinProg.Problem.Basic

/-!
# Problem records

A record states a problem as parallel lists: rows of coefficients, their relations and their
right-hand sides. It has no names; those of the problem are made up.
-/

namespace LinProg

/-- A problem as parallel lists. -/
structure Record (K : Type) where
  sense : Sense
  objective : List K
  rows : List (List K)
  signs : List Relation
  values : List K
  objectiveToggle : Option Toggle
  constraintToggles : Option (List Toggle)
  deriving DecidableEq

variable {K : Type}

namespace Record

/-- The constraints of parallel lists, of which the first gets the given number. -/
def constraintsFrom (number : Nat) : List (List K) → List Relation → List K → List (Constraint K)
  | row :: rows, sign :: signs, value :: values =>
      ⟨numbered "c" number, row, sign, value⟩ :: constraintsFrom (number + 1) rows signs values
  | _, _, _ => []

/-- The problem of a record whose lists have equal lengths. -/
def problem (r : Record K) : Problem K :=
  { names := defaultNames r.objective.length
    objective := ⟨r.objective, r.sense⟩
    constraints := constraintsFrom 1 r.rows r.signs r.values
    toggles := ⟨r.objectiveToggle, r.constraintToggles⟩ }

/-- The problem that a record states. -/
def toProblem (r : Record K) : Except Failure (Problem K) :=
  if r.signs.length ≠ r.rows.length then
    .error (.lengthMismatch .signs r.rows.length r.signs.length)
  else if r.values.length ≠ r.rows.length then
    .error (.lengthMismatch .values r.rows.length r.values.length)
  else .ok r.problem

end Record

/-- The record of a problem, without its names. -/
def Problem.toRecord (p : Problem K) : Record K :=
  { sense := p.objective.sense
    objective := p.objective.coefficients
    rows := p.constraints.map Constraint.coefficients
    signs := p.constraints.map Constraint.relation
    values := p.constraints.map Constraint.rhs
    objectiveToggle := p.toggles.objective
    constraintToggles := p.toggles.constraints }

end LinProg
