import LinProg.Proofs.Arrays.Building
import LinProg.Proofs.Arrays.Listing
import LinProg.Proofs.Arrays.Plane
import LinProg.Proofs.Simplex.Phase

/-!
# Solving by position

The solver as it runs on arrays, where every access out of range is a failure. It never fails: a
problem that passes the check builds a grid whose parts fit together, and they fit together after
every pivot. Checking and normalising a problem access nothing by position.
-/
namespace LinProg

variable {K : Type} [Scalar K]

namespace Arrays

/-- The grid with the costs of a phase. -/
def Grid.withCosts (g : Grid K) (costs : List K) : Grid K := { g with costs }

/-- What is ready for the second phase, if there is a feasible tableau. -/
def firstPhase (limits : Limits K) (g : Grid K) : Option (Except Failure (Passage K)) :=
  if g.hasArtificial then do
    let leg ← (g.withCosts g.phaseOneCosts).iterate .one g.columns.length limits.tolerance
      limits.pivots 0
    match leg.ending with
    | .unbounded => return .error .infeasible
    | .exhausted => return .error (.iterationLimit limits.pivots)
    | .optimal => do
        let value ← leg.grid.objectiveValue
        if limits.feasibilityTolerance < -value then return .error .infeasible
        else do
          let grid ← leg.grid.driveOut limits.tolerance
          return .ok { leg with grid }
  else some (.ok ⟨[], g, 0, .optimal⟩)

/-- The records of both phases and the optimum. -/
def secondPhase (p : Problem K) (limits : Limits K) (first : Passage K) :
    Option (Except Failure (List (Record K) × Optimum K)) := do
  let costs ← phaseTwoCosts p first.grid
  let leg ← (first.grid.withCosts costs).iterate .two first.grid.artificialStart limits.tolerance
    (limits.pivots - first.pivots) first.pivots
  match leg.ending with
  | .unbounded => return .error .unbounded
  | .exhausted => return .error (.iterationLimit limits.pivots)
  | .optimal => do
      let best ← leg.grid.objectiveValue
      let coordinates ← leg.grid.coordinates
      let value := match p.objective.sense with | .max => best | .min => -best
      return .ok (first.trace ++ leg.trace, ⟨coordinates, value⟩)

section
variable [Printable K]

/-- The solution that the second phase finds, with its table. -/
def finish (p : Problem K) (limits : Limits K) (method : Method) (form : List (List String))
    (first : Passage K) : Option (Except Failure (Solution K)) := do
  match ← secondPhase p limits first with
  | .error failure => return .error failure
  | .ok (records, best) => do
      let standard := if method == .general then ["Standard form"] :: form else []
      let names := first.grid.columns.map p.columnName
      let table ← listing names first.grid.hasArtificial standard records
      return .ok (.optimal method best.coordinates best.value table)

def simplex (p : Problem K) (limits : Limits K) (method : Method) :
    Option (Except Failure (Solution K)) := do
  let g ← build p
  let form ← standardForm p g
  match ← firstPhase limits g with
  | .error failure => return .error failure
  | .ok first => finish p limits method form first

variable [Polar K]

def graphical (p : Problem K) (tolerance : K) : Option (Except Failure (Solution K)) := do
  match ← bestVertex p tolerance with
  | .error failure => return .error failure
  | .ok (best, value) => do
      let table ← graphicalTable p
      return .ok (.optimal .graphical best.toList value table)

/-- The answer of a method to a problem that it checks first. -/
def solveBy (s : Solver K) (p : Problem K) (method : Method) :
    Option (Except Failure (Solution K)) :=
  match p.fault? with
  | some fault => some (.error fault)
  | none =>
      match method with
      | .graphical => graphical p s.feasibilityTolerance
      | .simplex => simplex p (s.limits s.maxIterations) .simplex
      | .general => simplex p (s.limits s.generalIterations) .general

def solve (s : Solver K) (p : Problem K) (asked : Method) : Option (Solution K) :=
  match p.fault? with
  | some fault => some (.failed fault.status none)
  | none => do
      let method := Method.route p.normalized asked
      match ← solveBy s p.normalized method with
      | .ok solution => return solution
      | .error failure => return .failed failure.status (some method)

end

end Arrays

namespace Problem
variable {p : Problem K}

/-- The check of a problem leaves no row of another length than the objective. -/
theorem length_coefficients (hp : p.fault? = none) :
    ∀ c ∈ p.constraints, c.coefficients.length = p.size := by
  intro c hc
  have hfault : c.fault? p.size = none := by
    simp only [fault?] at hp
    split at hp
    · cases hp
    · split at hp
      · exact List.findSome?_eq_none_iff.mp hp c hc
      · cases hp
  by_contra hlen
  rw [Constraint.fault?, if_pos hlen] at hfault
  cases hfault

/-- Every tableau that a run visits can be listed. -/
theorem fits_of_mem_simplex (p : Problem K) (limits : Limits K) :
    ∀ t ∈ (p.simplex limits).trace, t.Fits p.columns.length := by
  have hone : (p.stageOne limits).costs.length = p.columns.length := p.length_artificialCosts
  have htwo : (p.stageTwo limits).costs.length = p.columns.length := p.length_objectiveCosts
  have hstart := Shaped.initialRows p
  have hready := (hstart.run hone limits.pivots 0).driveOut p.length_realColumns_le limits.tolerance
  intro t ht
  simp only [simplex] at ht
  split at ht
  · exact Stage.fits_of_mem_run htwo hstart _ _ t ht
  · split at ht
    · exact Stage.fits_of_mem_run hone hstart _ _ t ht
    · rcases List.mem_append.mp ht with ht | ht
      · exact Stage.fits_of_mem_run hone hstart _ _ t ht
      · exact Stage.fits_of_mem_run htwo hready _ _ t ht

end Problem

namespace Arrays
variable {p : Problem K} {rows : List (Row K)} {costs top : List K} {limits : Limits K}

@[simp] theorem withCosts_gridOf (others : List K) :
    (gridOf p costs top rows).withCosts others = gridOf p others top rows := rfl

theorem firstPhase_of_isEmpty (hart : p.artificialColumns.isEmpty = true) :
    firstPhase limits (gridOf p costs top rows) =
      some (.ok ⟨[], gridOf p costs top rows, 0, .optimal⟩) := by
  rw [firstPhase, hasArtificial_gridOf, hart]
  rfl

theorem firstPhase_gridOf (h : Shaped p.columns.length rows)
    (hart : ¬ p.artificialColumns.isEmpty = true) {first : Leg K}
    (hfirst : (p.stageOne limits).run limits.pivots 0 rows = first) :
    firstPhase limits (gridOf p costs top rows) = some (match p.phaseOneFailure? limits first with
      | some failure => .error failure
      | none => .ok ⟨first.trace.map recordOf,
          gridOf p p.artificialCosts (prices p.artificialCosts first.rows)
            (driveOut p.realColumns.length limits.tolerance first.rows), first.pivots,
          first.ending⟩) := by
  have hcosts : (p.stageOne limits).costs.length = p.columns.length := p.length_artificialCosts
  have hiterate := iterate_gridOf hcosts limits.pivots 0 h top
  have hshaped := h.run hcosts limits.pivots 0
  rw [hfirst] at hiterate hshaped
  have hrun : (gridOf p p.artificialCosts top rows).iterate .one p.columns.length limits.tolerance
      limits.pivots 0 = some (passageOf p (p.stageOne limits) first) := hiterate
  have hvalue : (passageOf p (p.stageOne limits) first).grid.objectiveValue =
      some (basicValue p.artificialCosts first.rows) := objectiveValue_gridOf hcosts
  have hdrive : (passageOf p (p.stageOne limits) first).grid.driveOut limits.tolerance =
      some (gridOf p p.artificialCosts (prices p.artificialCosts first.rows)
        (driveOut p.realColumns.length limits.tolerance first.rows)) :=
    driveOut_gridOf hshaped limits.tolerance
  have hending : (passageOf p (p.stageOne limits) first).ending = first.ending := rfl
  rw [firstPhase, hasArtificial_gridOf, Bool.eq_false_iff.mpr hart, withCosts_gridOf]
  simp only [Bool.not_false, if_true]
  rw [show (gridOf p costs top rows).phaseOneCosts = p.artificialCosts from rfl, gridOf_columns,
    hrun]
  simp only [Option.bind_eq_bind, Option.bind_some, hending, hvalue, hdrive,
    Problem.phaseOneFailure?]
  cases first.ending with
  | unbounded => rfl
  | exhausted => rfl
  | optimal =>
    simp only
    split <;> rfl

theorem secondPhase_gridOf (h : Shaped p.columns.length rows) (visited : List (Snapshot K))
    (made : ℕ) (ending : Ending) {second : Leg K}
    (hsecond : (p.stageTwo limits).run (limits.pivots - made) made rows = second) :
    secondPhase p limits ⟨visited.map recordOf, gridOf p costs top rows, made, ending⟩ =
      some ((p.outcomeOf limits second).map fun best =>
        ((visited ++ second.trace).map recordOf, best)) := by
  have hcosts : (p.stageTwo limits).costs.length = p.columns.length := p.length_objectiveCosts
  have hiterate := iterate_gridOf hcosts (limits.pivots - made) made h top
  have hshaped := h.run hcosts (limits.pivots - made) made
  rw [hsecond] at hiterate hshaped
  have hrun : (gridOf p p.objectiveCosts top rows).iterate .two p.realColumns.length
      limits.tolerance (limits.pivots - made) made =
        some (passageOf p (p.stageTwo limits) second) := hiterate
  have hvalue : (passageOf p (p.stageTwo limits) second).grid.objectiveValue =
      some (basicValue p.objectiveCosts second.rows) := objectiveValue_gridOf hcosts
  have hpoint : (passageOf p (p.stageTwo limits) second).grid.coordinates =
      some (basicPoint p.size second.rows) := coordinates_gridOf hshaped
  have hending : (passageOf p (p.stageTwo limits) second).ending = second.ending := rfl
  simp only [secondPhase, phaseTwoCosts_gridOf, withCosts_gridOf, gridOf_artificialStart, hrun,
    hending, Problem.outcomeOf, Option.bind_eq_bind, Option.bind_some]
  cases second.ending with
  | unbounded => rfl
  | exhausted => rfl
  | optimal =>
    simp only [hvalue, hpoint, Option.bind_some, List.map_append]
    rfl

section
variable [Printable K]

theorem finish_gridOf (h : Shaped p.columns.length rows) (method : Method)
    {visited : List (Snapshot K)} (hvisited : ∀ t ∈ visited, t.Fits p.columns.length) (made : ℕ)
    (ending : Ending) {second : Leg K}
    (hsecond : (p.stageTwo limits).run (limits.pivots - made) made rows = second) :
    finish p limits method (Simplex.standardLines p).tail
        ⟨visited.map recordOf, gridOf p costs top rows, made, ending⟩ =
      some (Solver.present method p
        ⟨visited ++ second.trace, second.pivots, p.outcomeOf limits second⟩) := by
  have hcosts : (p.stageTwo limits).costs.length = p.columns.length := p.length_objectiveCosts
  have hfits : ∀ t ∈ visited ++ second.trace, t.Fits p.columns.length := by
    intro t ht
    rcases List.mem_append.mp ht with ht | ht
    · exact hvisited t ht
    · exact Stage.fits_of_mem_run hcosts h _ _ t (hsecond ▸ ht)
  have hnames : (gridOf p costs top rows).columns.map p.columnName = p.columnNames := rfl
  simp only [finish, secondPhase_gridOf h visited made ending hsecond, Option.bind_eq_bind,
    Option.bind_some]
  cases houtcome : p.outcomeOf limits second with
  | error failure => rfl
  | ok best =>
    simp only [Except.map, hnames, hasArtificial_gridOf, listing_eq hfits, Option.bind_some,
      Solver.present, Simplex.listing]
    cases hgeneral : method == .general <;> rfl

/-- The simplex method by position is the simplex method. -/
theorem simplex_eq (hp : p.fault? = none) (limits : Limits K) (method : Method) :
    simplex p limits method = some (Solver.present method p (p.simplex limits)) := by
  have hcosts : (p.stageOne limits).costs.length = p.columns.length := p.length_artificialCosts
  have hstart := Shaped.initialRows p
  rw [simplex, build_eq (Problem.length_coefficients hp)]
  simp only [Option.bind_eq_bind, Option.bind_some, standardForm_gridOf]
  by_cases hart : p.artificialColumns.isEmpty = true
  · have hvisited : ∀ t ∈ ([] : List (Snapshot K)), t.Fits p.columns.length := by simp
    rw [firstPhase_of_isEmpty hart, Option.bind_some, Problem.simplex_of_isEmpty hart]
    exact finish_gridOf hstart method hvisited 0 .optimal rfl
  · rw [firstPhase_gridOf hstart hart rfl, Option.bind_some]
    cases he : p.phaseOneFailure? limits
        ((p.stageOne limits).run limits.pivots 0 p.initialRows) with
    | some failure =>
      rw [Problem.simplex_of_failure hart he]
      rfl
    | none =>
      have hready := (hstart.run hcosts limits.pivots 0).driveOut p.length_realColumns_le
        limits.tolerance
      have hvisited := Stage.fits_of_mem_run hcosts hstart limits.pivots 0
      rw [Problem.simplex_of_accepted hart he]
      exact finish_gridOf hready method hvisited _ _ rfl

variable [Polar K]

theorem graphical_eq (tolerance : K) : graphical p tolerance =
    some (do
      let best ← p.bestVertex tolerance
      return .optimal .graphical best.toList (p.valueAt best) p.graphicalTable) := by
  rw [graphical, bestVertex_eq, graphicalTable_eq]
  cases p.bestVertex tolerance <;> rfl

theorem solveBy_eq (s : Solver K) (p : Problem K) (method : Method) :
    solveBy s p method = some (s.solveBy p method) := by
  cases hp : p.fault? with
  | some fault =>
    have hvalid : p.validate = .error fault := by rw [Problem.validate, hp]
    simp only [solveBy, hp]
    cases method with
    | graphical =>
      rw [Solver.solveBy, Solver.solveGraphical, hvalid]
      rfl
    | simplex =>
      rw [Solver.solveBy, Solver.solveSimplex, hvalid]
      rfl
    | general =>
      rw [Solver.solveBy, Solver.solveGeneral, hvalid]
      rfl
  | none =>
    have hvalid : p.validate = .ok () := Problem.validate_eq_ok.mpr hp
    cases method with
    | graphical =>
      simp only [solveBy, hp, graphical_eq, Solver.solveBy, Solver.solveGraphical, hvalid]
      rfl
    | simplex =>
      simp only [solveBy, hp, simplex_eq hp, Solver.solveBy, Solver.solveSimplex, hvalid]
      rfl
    | general =>
      simp only [solveBy, hp, simplex_eq hp, Solver.solveBy, Solver.solveGeneral, hvalid]
      rfl

/-- Solving by position never fails, and the solution is the one of the solver. -/
theorem solve_eq (s : Solver K) (p : Problem K) (asked : Method) :
    solve s p asked = some (s.solve p asked) := by
  cases hp : p.fault? with
  | some fault => simp only [solve, hp, Solver.solve]
  | none =>
    simp only [solve, hp, solveBy_eq, Solver.solve, Option.bind_eq_bind, Option.bind_some]
    cases s.solveBy p.normalized (Method.route p.normalized asked) <;> rfl

end

end Arrays
end LinProg
