import LinProg.Model.Token
import LinProg.Problem.Relation

/-!
# Models

A model is a list of statements: one names the objective, the others are constraints. Both hold
sums of terms as they are written, with the bytes where they stand.
-/

namespace LinProg

/-- A coefficient with a variable, or a constant. -/
structure Term (K : Type) where
  span : Span
  coefficient : K
  name : Option String
  deriving DecidableEq

/-- Whether a term has no variable. -/
def Term.isConstant {K : Type} (t : Term K) : Bool := t.name.isNone

/-- A statement of the objective, such as `max: 3x1 + 2x2`. -/
structure ObjectiveStatement (K : Type) where
  span : Span
  sense : Sense
  terms : List (Term K)
  deriving DecidableEq

/-- A statement of a constraint, such as `c1: 2x1 + x2 <= 10`. -/
structure ConstraintStatement (K : Type) where
  span : Span
  name : Option String
  terms : List (Term K)
  relation : Relation
  rhs : K
  deriving DecidableEq

/-- A statement of a model. -/
inductive Statement (K : Type) where
  | objective (statement : ObjectiveStatement K)
  | constraint (statement : ConstraintStatement K)
  deriving DecidableEq

def Statement.span {K : Type} : Statement K → Span
  | objective o => o.span
  | constraint c => c.span

/-- A model as it is written. -/
structure Model (K : Type) where
  statements : List (Statement K)
  deriving DecidableEq

end LinProg
