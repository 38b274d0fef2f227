import LinProg.Scalar.Basic

/-!
# Relations and senses

A constraint compares its two sides by one of three relations. Comparisons allow an absolute
tolerance.
-/

namespace LinProg

/-- The direction in which the objective is optimised. -/
inductive Sense where
  | max
  | min
  deriving DecidableEq

def Sense.name : Sense → String
  | max => "max"
  | min => "min"

/-- The relation between the two sides of a constraint. -/
inductive Relation where
  | le
  | ge
  | eq
  deriving DecidableEq

namespace Relation

variable {K : Type} [Scalar K]

/-- Whether the relation holds between two numbers up to a tolerance. -/
def holds (relation : Relation) (lhs rhs tolerance : K) : Bool :=
  match relation with
  | le => lhs ≤ rhs + tolerance
  | ge => rhs - tolerance ≤ lhs
  | eq => Scalar.abs (lhs - rhs) ≤ tolerance

/-- The relation between the negated sides. -/
def flipped : Relation → Relation
  | le => ge
  | ge => le
  | eq => eq

@[simp] theorem flipped_flipped (relation : Relation) : relation.flipped.flipped = relation := by
  cases relation <;> rfl

/-- The mathematical sign of a relation. -/
def symbol : Relation → String
  | le => "≤"
  | ge => "≥"
  | eq => "="

/-- The spelling of a relation in plain characters. -/
def spelling : Relation → String
  | le => "<="
  | ge => ">="
  | eq => "="

end Relation

end LinProg
