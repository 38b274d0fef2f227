import LinProg.Problem.Basic
import LinProg.Text.Blank

/-!
# Methods

The methods that a caller can ask for, and the one that a problem is solved with: problems in two
variables always go to the graphical method, and no others do.
-/

namespace LinProg

inductive Method where
  | graphical
  | simplex
  /-- The simplex method, shown from the standard form on. -/
  | general
  deriving DecidableEq

namespace Method

def name : Method → String
  | graphical => "graphical"
  | simplex => "simplex"
  | general => "general"

/-- The method of a name in any case of letters, with blanks around it. -/
def ofName? (text : String) : Option Method :=
  let word := String.ofList ((Text.trim text.toList).map Char.toLower)
  [graphical, simplex, general].find? fun m => m.name == word

/-- The method of a name, or the graphical one if there is none of that name. -/
def ofName (text : String) : Method := (ofName? text).getD graphical

def unknownMessage (text : String) : String :=
  "unknown method '" ++ text ++ "', expected graphical, simplex or general"

@[simp] theorem ofName?_name (m : Method) : ofName? m.name = some m := by
  cases m <;> decide +kernel

/-- The method that a problem is solved with when a method is asked for. -/
def route {K : Type} [Scalar K] (p : Problem K) (asked : Method) : Method :=
  if p.size = 2 then graphical
  else match asked with
    | general => general
    | _ => simplex

theorem route_eq_graphical_iff {K : Type} [Scalar K] {p : Problem K} {asked : Method} :
    route p asked = graphical ↔ p.size = 2 := by
  unfold route
  split
  · simp_all
  · cases asked <;> simp_all

theorem route_eq_general_iff {K : Type} [Scalar K] {p : Problem K} {asked : Method} :
    route p asked = general ↔ p.size ≠ 2 ∧ asked = general := by
  unfold route
  split
  · simp_all
  · cases asked <;> simp_all

end Method

end LinProg
