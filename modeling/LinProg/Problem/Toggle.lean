import LinProg.Scalar.Basic

/-!
# Sign toggles

A form may set a sign once for a whole row of coefficients instead of at each of them.
-/

namespace LinProg

/-- The sign set for a row. -/
inductive Toggle where
  | plus
  | minus
  deriving DecidableEq

namespace Toggle

variable {K : Type} [Scalar K]

def spelling : Toggle → String
  | plus => "+"
  | minus => "-"

/-- The row with the sign set: a minus stands between the coefficients, so it leaves the first
one alone and makes every other one negative. -/
def apply : Toggle → List K → List K
  | minus, first :: rest => first :: rest.map fun c => -Scalar.abs c
  | _, row => row

@[simp] theorem apply_plus (row : List K) : plus.apply row = row := by
  cases row <;> rfl

@[simp] theorem length_apply (toggle : Toggle) (row : List K) :
    (toggle.apply row).length = row.length := by
  cases toggle <;> cases row <;> simp [apply]

end Toggle

/-- The toggles of a problem, each of them optional. -/
structure Toggles where
  objective : Option Toggle
  /-- One toggle per constraint; a list of another length has no effect. -/
  constraints : Option (List Toggle)
  deriving DecidableEq

def Toggles.none : Toggles := ⟨.none, .none⟩

end LinProg
