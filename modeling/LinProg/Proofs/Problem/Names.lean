import LinProg.Plane.Optimum
import LinProg.Plane.Region
import LinProg.Proofs.Problem.Checking
import LinProg.Record.Basic
import LinProg.Simplex.Run

/-!
# Names play no part in solving

Two problems differ only in their names if they are equal once the names are taken away. Everything
that the methods compute of a problem is the same without its names. Nothing is assumed of the
numbers.
-/
namespace LinProg
variable {K : Type}

/-- The constraint without its name. -/
def Constraint.unnamed (c : Constraint K) : Constraint K := { c with name := "" }

/-- The problem without the names of its variables and constraints. -/
def Problem.unnamed (p : Problem K) : Problem K :=
  { p with names := [], constraints := p.constraints.map Constraint.unnamed }

@[simp] theorem Constraint.unnamed_relation (c : Constraint K) :
    c.unnamed.relation = c.relation := rfl

namespace Problem

@[simp] theorem unnamed_objective (p : Problem K) : p.unnamed.objective = p.objective := rfl

@[simp] theorem unnamed_constraints (p : Problem K) :
    p.unnamed.constraints = p.constraints.map Constraint.unnamed := rfl

@[simp] theorem unnamed_size (p : Problem K) : p.unnamed.size = p.size := rfl

end Problem

namespace Record

/-- The constraints that are read off the rows of a problem are its constraints by their numbers. -/
theorem constraintsFrom_parts (number : ℕ) (constraints : List (Constraint K)) :
    constraintsFrom number (constraints.map Constraint.coefficients)
        (constraints.map Constraint.relation) (constraints.map Constraint.rhs) =
      constraints.mapIdx fun i c => { c with name := numbered "c" (number + i) } := by
  induction constraints generalizing number with
  | nil => rfl
  | cons c constraints ih =>
    simp [constraintsFrom, ih, List.mapIdx_cons, Nat.add_assoc, Nat.add_comm 1]

end Record

namespace Problem

/-- The record of a problem states the problem by other names. -/
theorem toProblem_toRecord (p : Problem K) :
    p.toRecord.toProblem = .ok
      { p with
        names := defaultNames p.objective.coefficients.length
        constraints := p.constraints.mapIdx fun i c => { c with name := numbered "c" (i + 1) } } := by
  simp [Record.toProblem, Record.problem, toRecord, Record.constraintsFrom_parts, Nat.add_comm 1]

theorem exists_toProblem_toRecord (p : Problem K) :
    ∃ q, p.toRecord.toProblem = .ok q ∧ q.unnamed = p.unnamed := by
  refine ⟨_, p.toProblem_toRecord, ?_⟩
  have hconstraints : (p.constraints.mapIdx fun i c =>
      { c with name := numbered "c" (i + 1) }).map Constraint.unnamed =
        p.constraints.map Constraint.unnamed := by
    apply List.ext_getElem <;> simp [Constraint.unnamed]
  simp only [unnamed, hconstraints]

end Problem

variable [Scalar K]

namespace Constraint

@[simp] theorem unnamed_boundary (c : Constraint K) : c.unnamed.boundary = c.boundary := rfl

theorem unnamed_standardized (c : Constraint K) :
    c.unnamed.standardized = c.standardized.unnamed := by
  by_cases h : c.rhs < 0
  · rw [standardized, standardized, if_pos h]
    exact if_pos h
  · rw [standardized, standardized, if_neg h]
    exact if_neg h

theorem isSome_fault?_unnamed (n : ℕ) (c : Constraint K) :
    (c.unnamed.fault? n).isSome = (c.fault? n).isSome := by
  rw [isSome_fault?, isSome_fault?]
  rfl

end Constraint

namespace Problem

theorem isSome_fault?_unnamed (p : Problem K) : p.unnamed.fault?.isSome = p.fault?.isSome := by
  rw [isSome_fault?, isSome_fault?, unnamed_constraints, List.any_map]
  simp only [Function.comp_def, unnamed_size, Constraint.isSome_fault?_unnamed]
  rfl

theorem unnamed_normalized (p : Problem K) : p.unnamed.normalized = p.normalized.unnamed := by
  have hconstraints :
      p.unnamed.toggledConstraints = p.toggledConstraints.map Constraint.unnamed := by
    simp only [toggledConstraints, unnamed, List.length_map]
    split
    · rfl
    · split
      · simp [List.zipWith_map_left, List.map_zipWith, Constraint.unnamed]
      · rfl
  rw [normalized, hconstraints]
  rfl

theorem unnamed_standardRows (p : Problem K) :
    p.unnamed.standardRows = p.standardRows.map Constraint.unnamed := by
  simp [standardRows, Function.comp_def, Constraint.unnamed_standardized]

theorem mapIdx_unnamed_standardRows {A : Type} {f : ℕ → Constraint K → A}
    (hf : ∀ i c, f i c.unnamed = f i c) (p : Problem K) :
    p.unnamed.standardRows.mapIdx f = p.standardRows.mapIdx f := by
  apply List.ext_getElem
  · simp [unnamed_standardRows]
  · intro i _ _
    simp [unnamed_standardRows, hf]

@[simp] theorem unnamed_realColumns (p : Problem K) : p.unnamed.realColumns = p.realColumns := by
  rw [realColumns, mapIdx_unnamed_standardRows (by simp)]
  rfl

@[simp] theorem unnamed_artificialColumns (p : Problem K) :
    p.unnamed.artificialColumns = p.artificialColumns := by
  rw [artificialColumns, mapIdx_unnamed_standardRows (by simp)]
  rfl

@[simp] theorem unnamed_columns (p : Problem K) : p.unnamed.columns = p.columns := by
  simp [columns]

@[simp] theorem unnamed_initialRows (p : Problem K) : p.unnamed.initialRows = p.initialRows := by
  simp only [initialRows, unnamed_columns]
  exact mapIdx_unnamed_standardRows (fun _ _ => rfl) p

@[simp] theorem unnamed_artificialCosts (p : Problem K) :
    p.unnamed.artificialCosts = p.artificialCosts := by
  simp [artificialCosts]

@[simp] theorem unnamed_objectiveCosts (p : Problem K) :
    p.unnamed.objectiveCosts = p.objectiveCosts := by
  simp only [objectiveCosts, unnamed_columns]
  rfl

/-- The runs of a problem do not depend on its names. -/
@[simp] theorem unnamed_simplex (p : Problem K) (limits : Limits K) :
    p.unnamed.simplex limits = p.simplex limits := by
  have hone : p.unnamed.stageOne limits = p.stageOne limits := by simp [stageOne]
  have htwo : p.unnamed.stageTwo limits = p.stageTwo limits := by simp [stageTwo]
  have hfailure : p.unnamed.phaseOneFailure? limits = p.phaseOneFailure? limits := by
    funext leg
    simp only [phaseOneFailure?, unnamed_artificialCosts]
  have houtcome : p.unnamed.outcomeOf limits = p.outcomeOf limits := by
    funext leg
    simp only [outcomeOf, optimumAt, unnamed_objectiveCosts, unnamed_size, unnamed_objective]
  simp only [simplex, hone, htwo, hfailure, houtcome, unnamed_artificialColumns,
    unnamed_initialRows, unnamed_realColumns]

@[simp] theorem unnamed_boundaries (p : Problem K) : p.unnamed.boundaries = p.boundaries := by
  simp [boundaries, Function.comp_def]

@[simp] theorem unnamed_candidateVertices (p : Problem K) :
    p.unnamed.candidateVertices = p.candidateVertices := by
  simp [candidateVertices]

theorem feasible_unnamed (tolerance : K) (p : Problem K) :
    Point.feasible tolerance p.unnamed.constraints = Point.feasible tolerance p.constraints := by
  funext v
  simp only [Point.feasible, unnamed_constraints, List.all_map, Function.comp_def]
  rfl

variable [Polar K]

@[simp] theorem unnamed_bestVertex (p : Problem K) (tolerance : K) :
    p.unnamed.bestVertex tolerance = p.bestVertex tolerance := by
  have hvertices : p.unnamed.feasibleVertices tolerance = p.feasibleVertices tolerance := by
    simp only [feasibleVertices, unnamed_candidateVertices, feasible_unnamed]
  have hdirections : p.unnamed.directions = p.directions := by simp [directions]
  have hrecedes : p.unnamed.recedesAlong tolerance = p.recedesAlong tolerance := by
    funext d
    simp only [recedesAlong, unnamed_constraints, List.all_map, Function.comp_def]
    rfl
  have hunbounded : p.unnamed.unboundedAlong tolerance = p.unboundedAlong tolerance := by
    funext d
    simp only [unboundedAlong, hrecedes]
    rfl
  simp only [bestVertex, hvertices, hdirections, hunbounded, unnamed_size]
  rfl

@[simp] theorem unnamed_region (p : Problem K) : p.unnamed.region = p.region := by
  have hvertices : p.unnamed.distinctVertices = p.distinctVertices := by
    simp only [distinctVertices, unnamed_candidateVertices, feasible_unnamed]
  simp only [region, hvertices, unnamed_size, isSome_fault?_unnamed]
  rfl

end Problem
end LinProg
