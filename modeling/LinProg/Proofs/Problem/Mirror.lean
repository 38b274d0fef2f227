import LinProg.Plane.Optimum
import LinProg.Proofs.Problem.Optimality
import LinProg.Simplex.Run

/-!
# Mirrored problems

A problem is mirrored by negating its objective and optimising it in the other sense. The simplex
method maximises the same costs for a problem and its mirror image, and turns the sign of the value
at the end. The graphical method compares negated values the other way round. Where the numbers are
exact, both make the same choices for both problems.
-/
namespace LinProg
variable {K : Type}

def Sense.opposite : Sense → Sense
  | max => min
  | min => max

section
variable [Scalar K]

/-- The negated function, which is optimised in the other sense. -/
def Objective.mirrored (o : Objective K) : Objective K :=
  ⟨o.coefficients.map (- ·), o.sense.opposite⟩

/-- The problem with its objective mirrored. -/
def Problem.mirrored (p : Problem K) : Problem K := { p with objective := p.objective.mirrored }

/-- The same point with the negated value. -/
def Optimum.mirrored (best : Optimum K) : Optimum K := { best with value := -best.value }

/-- The same run with the value at its end negated. -/
def Run.mirrored (run : Run K) : Run K :=
  { run with outcome := run.outcome.map Optimum.mirrored }

namespace Problem

@[simp] theorem mirrored_names (p : Problem K) : p.mirrored.names = p.names := rfl

@[simp] theorem mirrored_constraints (p : Problem K) :
    p.mirrored.constraints = p.constraints := rfl

@[simp] theorem mirrored_sense (p : Problem K) :
    p.mirrored.objective.sense = p.objective.sense.opposite := rfl

@[simp] theorem mirrored_size (p : Problem K) : p.mirrored.size = p.size := List.length_map _

@[simp] theorem mirrored_realColumns (p : Problem K) : p.mirrored.realColumns = p.realColumns := by
  rw [realColumns, mirrored_size]
  rfl

@[simp] theorem mirrored_artificialColumns (p : Problem K) :
    p.mirrored.artificialColumns = p.artificialColumns := rfl

@[simp] theorem mirrored_columns (p : Problem K) : p.mirrored.columns = p.columns := by
  simp [columns]

@[simp] theorem mirrored_initialRows (p : Problem K) : p.mirrored.initialRows = p.initialRows := by
  simp only [initialRows, mirrored_columns]
  rfl

@[simp] theorem mirrored_artificialCosts (p : Problem K) :
    p.mirrored.artificialCosts = p.artificialCosts := by
  simp [artificialCosts]

@[simp] theorem mirrored_boundaries (p : Problem K) : p.mirrored.boundaries = p.boundaries := rfl

@[simp] theorem mirrored_directions (p : Problem K) : p.mirrored.directions = p.directions := rfl

@[simp] theorem mirrored_feasibleVertices (p : Problem K) (tolerance : K) :
    p.mirrored.feasibleVertices tolerance = p.feasibleVertices tolerance := rfl

end Problem
end

section
variable [Field K] [LinearOrder K]

namespace Problem

@[simp] theorem mirrored_fault? (p : Problem K) : p.mirrored.fault? = p.fault? := by
  simp [fault?]

/-- Both problems maximise the same function. -/
@[simp] theorem mirrored_maximized (p : Problem K) : p.mirrored.maximized = p.maximized := by
  rw [maximized, maximized, mirrored_sense]
  cases p.objective.sense <;> simp [Sense.opposite, mirrored, Objective.mirrored]

@[simp] theorem mirrored_objectiveCosts (p : Problem K) :
    p.mirrored.objectiveCosts = p.objectiveCosts := by
  simp [objectiveCosts]

theorem mirrored_optimumAt (p : Problem K) (rows : List (Row K)) :
    p.mirrored.optimumAt rows = (p.optimumAt rows).mirrored := by
  cases h : p.objective.sense <;> simp [optimumAt, h, Sense.opposite, Optimum.mirrored]

/-- The run of the simplex method does not change, but for the sign of its value. -/
theorem mirrored_simplex (p : Problem K) (limits : Limits K) :
    p.mirrored.simplex limits = (p.simplex limits).mirrored := by
  have hone : p.mirrored.stageOne limits = p.stageOne limits := by simp [stageOne]
  have htwo : p.mirrored.stageTwo limits = p.stageTwo limits := by simp [stageTwo]
  have hfailure : p.mirrored.phaseOneFailure? limits = p.phaseOneFailure? limits := by
    funext leg
    simp only [phaseOneFailure?, mirrored_artificialCosts]
  have houtcome (leg : Leg K) : p.mirrored.outcomeOf limits leg =
      (p.outcomeOf limits leg).map Optimum.mirrored := by
    cases h : leg.ending <;> simp [outcomeOf, h, mirrored_optimumAt, Except.map]
  simp only [simplex, hone, htwo, hfailure, houtcome, mirrored_artificialColumns,
    mirrored_initialRows, mirrored_realColumns]
  split
  · rfl
  · split <;> rfl

theorem mirrored_valueAt (p : Problem K) (v : Point K) :
    p.mirrored.valueAt v = -p.valueAt v := Scalar.dot_map_neg ..

end Problem

variable [IsStrictOrderedRing K]

/-- What is better in one sense is better in the other when it is negated. -/
theorem Sense.better_opposite_neg (s : Sense) (a b : K) :
    s.opposite.better (-a) (-b) = s.better a b := by
  cases s <;> simp [better, opposite]

namespace Problem

theorem mirrored_betterPoint (p : Problem K) : p.mirrored.betterPoint = p.betterPoint := by
  funext v w
  simp [betterPoint, mirrored_valueAt, Sense.better_opposite_neg]

theorem mirrored_improvesAlong (p : Problem K) (tolerance : K) (d : Point K) :
    p.mirrored.improvesAlong tolerance d = p.improvesAlong tolerance d := by
  cases h : p.objective.sense <;>
    simp [improvesAlong, h, Sense.opposite, mirrored_valueAt, lt_neg]

variable [Polar K]

/-- The graphical method finds the same vertex or fails alike. -/
@[simp] theorem mirrored_bestVertex (p : Problem K) (tolerance : K) :
    p.mirrored.bestVertex tolerance = p.bestVertex tolerance := by
  have hunbounded : p.mirrored.unboundedAlong tolerance = p.unboundedAlong tolerance := by
    funext d
    simp only [unboundedAlong, mirrored_improvesAlong]
    rfl
  simp only [bestVertex, mirrored_size, mirrored_feasibleVertices, mirrored_directions, hunbounded,
    mirrored_betterPoint]

end Problem
end
end LinProg
