import LinProg.Model.Statement
import LinProg.Problem.Basic

/-!
# From models to problems

A model states a problem if its first statement is its only objective, the objective is a sum of
variables, and no two constraints have one name. Variables are numbered by their first occurrence;
terms with one variable are added up, and constants move to the right-hand side.
-/

namespace LinProg

/-- Why a model states no problem. -/
inductive CompileError where
  | missingObjective (span : Span)
  | duplicateObjective (span : Span)
  | duplicateConstraint (name : String) (span : Span)
  | constantInObjective (span : Span)
  | emptyObjective (span : Span)
  deriving DecidableEq

namespace CompileError

def message : CompileError → String
  | missingObjective _ => "Model must start with a max or min objective"
  | duplicateObjective _ => "Only one objective is allowed"
  | duplicateConstraint name _ => "Duplicate constraint name: " ++ name
  | constantInObjective _ => "Constant term not allowed in objective"
  | emptyObjective _ => "Objective has no variables"

def span : CompileError → Span
  | missingObjective span | duplicateObjective span | duplicateConstraint _ span
  | constantInObjective span | emptyObjective span => span

end CompileError

/-- The names seen so far, and after them the new ones of a list by their first occurrence. -/
def addNew (seen : List String) : List String → List String
  | [] => seen
  | name :: rest => if name ∈ seen then addNew seen rest else addNew (seen ++ [name]) rest

namespace Model

variable {K : Type}

/-- The constraints of a model with their names, of which some are taken. A constraint without
a name is called by its number. -/
def namedConstraints (taken : List String) :
    List (Statement K) → Except CompileError (List (String × ConstraintStatement K))
  | [] => .ok []
  -- the caller has taken the first statement away
  | .objective o :: _ => .error (.duplicateObjective o.span)
  | .constraint c :: rest =>
      let name := c.name.getD (numbered "c" (taken.length + 1))
      if name ∈ taken then .error (.duplicateConstraint name c.span)
      else
        match namedConstraints (taken ++ [name]) rest with
        | .error e => .error e
        | .ok others => .ok ((name, c) :: others)

def objectiveFault? (o : ObjectiveStatement K) : Option CompileError :=
  match o.terms.find? Term.isConstant with
  | some constant => some (.constantInObjective constant.span)
  | none => if o.terms.isEmpty then some (.emptyObjective o.span) else none

variable [Scalar K]

/-- The sum of the coefficients of a variable. -/
def coefficientOf (terms : List (Term K)) (name : String) : K :=
  terms.foldl (fun sum t => if t.name = some name then sum + t.coefficient else sum) 0

/-- The sum of the constants among the terms. -/
def constantOf (terms : List (Term K)) : K :=
  terms.foldl (fun sum t => if t.isConstant then sum + t.coefficient else sum) 0

/-- The constraint that a statement makes over the given variables. -/
def constraintOf (names : List String) (name : String) (c : ConstraintStatement K) :
    Constraint K :=
  { name
    coefficients := names.map (coefficientOf c.terms)
    relation := c.relation
    rhs := c.rhs - constantOf c.terms }

/-- The problem of an objective and constraints. -/
def problemOf (o : ObjectiveStatement K)
    (constraints : List (String × ConstraintStatement K)) : Problem K :=
  let terms := o.terms ++ constraints.flatMap fun c => c.2.terms
  let names := addNew [] (terms.filterMap Term.name)
  { names
    objective := ⟨names.map (coefficientOf o.terms), o.sense⟩
    constraints := constraints.map fun (name, c) => constraintOf names name c
    toggles := .none }

def compile (m : Model K) : Except CompileError (Problem K) :=
  match m.statements with
  | [] => .error (.missingObjective ⟨0, 0⟩)
  | .constraint c :: _ => .error (.missingObjective c.span)
  | .objective o :: rest =>
      match objectiveFault? o with
      | some fault => .error fault
      | none => (namedConstraints [] rest).map (problemOf o)

end Model

end LinProg
