import LinProg.Proofs.Plane.HalfPlane
import LinProg.Proofs.Simplex.Soundness
import LinProg.Solver.Basic

/-!
# Constraints with both sides negated

A constraint may be multiplied by -1 if its relation is flipped. In the plane its boundary remains
the same line: it meets the other boundaries in the same points, it is kept to by the same points up
to any tolerance, and its two directions only change places. The simplex method states every
constraint with a right-hand side that is not negative; unless the right-hand side is zero, the two
forms of a constraint have this statement in common. Nothing is assumed of the lengths of vectors,
and the tolerances may be any numbers.
-/
namespace LinProg
variable {K : Type}

/-- What does not tell a changed entry from the entry before is the same of the whole list. -/
theorem map_modify_eq_map {A B : Type} {f : A → B} {g : A → A} {xs : List A} {i : ℕ}
    (h : ∀ x, xs[i]? = some x → f (g x) = f x) : (xs.modify i g).map f = xs.map f := by
  apply List.ext_getElem?
  intro j
  rw [List.getElem?_map, List.getElem?_map, List.getElem?_modify]
  split_ifs with hij
  · subst hij
    cases hx : xs[i]? with
    | none => rfl
    | some x => simp [h x hx]
  · cases xs[j]? <;> rfl

theorem all_modify_eq_all {A : Type} {f : A → Bool} {g : A → A} (h : ∀ x, f (g x) = f x)
    (xs : List A) (i : ℕ) : (xs.modify i g).all f = xs.all f := by
  have hmap : (xs.modify i g).map f = xs.map f := map_modify_eq_map fun x _ => h x
  simpa [List.all_map] using congrArg (List.all · id) hmap

section
variable [Scalar K]

namespace Problem
variable {p q : Problem K}

theorem realColumns_congr (hobjective : q.objective = p.objective)
    (hrows : q.standardRows = p.standardRows) : q.realColumns = p.realColumns := by
  rw [realColumns, realColumns, size, size, hobjective, hrows]

theorem artificialColumns_congr (hrows : q.standardRows = p.standardRows) :
    q.artificialColumns = p.artificialColumns := by
  rw [artificialColumns, artificialColumns, hrows]

theorem columns_congr (hobjective : q.objective = p.objective)
    (hrows : q.standardRows = p.standardRows) : q.columns = p.columns := by
  rw [columns, columns, realColumns_congr hobjective hrows, artificialColumns_congr hrows]

theorem initialRows_congr (hobjective : q.objective = p.objective)
    (hrows : q.standardRows = p.standardRows) : q.initialRows = p.initialRows := by
  rw [initialRows, initialRows, columns_congr hobjective hrows, hrows]

theorem artificialCosts_congr (hobjective : q.objective = p.objective)
    (hrows : q.standardRows = p.standardRows) : q.artificialCosts = p.artificialCosts := by
  rw [artificialCosts, artificialCosts, columns_congr hobjective hrows]

theorem objectiveCosts_congr (hobjective : q.objective = p.objective)
    (hrows : q.standardRows = p.standardRows) : q.objectiveCosts = p.objectiveCosts := by
  rw [objectiveCosts, objectiveCosts, columns_congr hobjective hrows, maximized, maximized,
    hobjective]

/-- A run depends on the objective and on the constraints as they are standardized. -/
theorem simplex_congr (hobjective : q.objective = p.objective)
    (hrows : q.standardRows = p.standardRows) (limits : Limits K) :
    q.simplex limits = p.simplex limits := by
  have hreal := realColumns_congr hobjective hrows
  have hartificial := artificialCosts_congr hobjective hrows
  have hcosts := objectiveCosts_congr hobjective hrows
  have hone : q.stageOne limits = p.stageOne limits := by
    rw [stageOne, stageOne, hartificial, columns_congr hobjective hrows]
  have htwo : q.stageTwo limits = p.stageTwo limits := by
    rw [stageTwo, stageTwo, hcosts, hreal]
  have hfailure : q.phaseOneFailure? limits = p.phaseOneFailure? limits := by
    funext leg
    simp only [phaseOneFailure?, hartificial]
  have houtcome : q.outcomeOf limits = p.outcomeOf limits := by
    funext leg
    simp only [outcomeOf, optimumAt, size, hcosts, hobjective]
  simp only [simplex, hone, htwo, hfailure, houtcome, hreal, artificialColumns_congr hrows,
    initialRows_congr hobjective hrows]

/-- A listing depends on the names as well. -/
theorem listing_congr [Printable K] (hobjective : q.objective = p.objective)
    (hnames : q.names = p.names)
    (hlabels : q.constraints.map Constraint.name = p.constraints.map Constraint.name)
    (hrows : q.standardRows = p.standardRows) : Simplex.listing q = Simplex.listing p := by
  have hcolumn : q.columnName = p.columnName := by
    funext column
    simp only [columnName, variableName, hnames]
  have hcolumns : q.columnNames = p.columnNames := by
    rw [columnNames, columnNames, hcolumn, columns_congr hobjective hrows]
  have hzip (equation : Row K → String) :
      List.zipWith (fun c r => ["", c.name, equation r]) q.constraints p.initialRows =
        List.zipWith (fun c r => ["", c.name, equation r]) p.constraints p.initialRows := by
    have heq := congrArg
      (List.zipWith (fun name r => ["", name, equation r]) · p.initialRows) hlabels
    simpa only [List.zipWith_map_left] using heq
  have hlines : Simplex.standardLines q = Simplex.standardLines p := by
    simp only [Simplex.standardLines, hcolumns, hobjective, size, artificialColumns_congr hrows,
      artificialCosts_congr hobjective hrows, initialRows_congr hobjective hrows, hzip]
  funext withStandardForm trace
  simp only [Simplex.listing, hcolumns, hlines, artificialColumns_congr hrows]

end Problem

/-- The same constraint multiplied by -1. -/
def Constraint.negated (c : Constraint K) : Constraint K :=
  { c with coefficients := c.coefficients.map (- ·), relation := c.relation.flipped, rhs := -c.rhs }

/-- The problem with the constraint at an index multiplied by -1. -/
def Problem.negateConstraint (p : Problem K) (i : ℕ) : Problem K :=
  { p with constraints := p.constraints.modify i Constraint.negated }

namespace Constraint

theorem standardized_eq (c : Constraint K) :
    c.standardized = if c.rhs < 0 then c.negated else c := rfl

@[simp] theorem negated_name (c : Constraint K) : c.negated.name = c.name := rfl

@[simp] theorem negated_relation (c : Constraint K) : c.negated.relation = c.relation.flipped := rfl

@[simp] theorem negated_rhs (c : Constraint K) : c.negated.rhs = -c.rhs := rfl

end Constraint

namespace Problem

@[simp] theorem negateConstraint_objective (p : Problem K) (i : ℕ) :
    (p.negateConstraint i).objective = p.objective := rfl

@[simp] theorem negateConstraint_constraints (p : Problem K) (i : ℕ) :
    (p.negateConstraint i).constraints = p.constraints.modify i Constraint.negated := rfl

@[simp] theorem negateConstraint_size (p : Problem K) (i : ℕ) :
    (p.negateConstraint i).size = p.size := rfl

end Problem
end

variable [Field K] [LinearOrder K]

namespace Constraint

theorem negated_fault? (n : ℕ) (c : Constraint K) : c.negated.fault? n = c.fault? n := by
  simp [fault?, negated]

theorem negated_negated (c : Constraint K) : c.negated.negated = c := by
  simp [negated]

end Constraint

namespace Problem

theorem negateConstraint_validate (p : Problem K) (i : ℕ) :
    (p.negateConstraint i).validate = p.validate := by
  have hrows : (p.constraints.modify i Constraint.negated).findSome? (Constraint.fault? p.size) =
      p.constraints.findSome? (Constraint.fault? p.size) := by
    have hmap : (p.constraints.modify i Constraint.negated).map (Constraint.fault? p.size) =
        p.constraints.map (Constraint.fault? p.size) :=
      map_modify_eq_map fun c _ => c.negated_fault? p.size
    simpa [List.findSome?_map] using congrArg (List.findSome? id) hmap
  simp only [validate, fault?, negateConstraint_size, negateConstraint_objective,
    negateConstraint_constraints, hrows]

end Problem

@[simp] theorem Constraint.negated_boundary (c : Constraint K) :
    c.negated.boundary = c.boundary.flip := by
  have hentry (j : ℕ) : (c.coefficients.map (- ·))[j]?.getD 0 = -c.coefficients[j]?.getD 0 := by
    rw [List.getElem?_map]
    cases c.coefficients[j]? <;> simp
  simp only [boundary, Line.flip, negated, hentry]

namespace Line

theorem meet?_flip_left (l m : Line K) : l.flip.meet? m = l.meet? m := by
  have hx : -l.c * m.b - m.c * -l.b = -(l.c * m.b - m.c * l.b) := by ring
  have hy : -l.a * m.c - m.a * -l.c = -(l.a * m.c - m.a * l.c) := by ring
  rw [meet?_eq, meet?_eq, det_flip_left, abs_neg]
  simp only [flip, hx, hy, neg_div_neg_eq]

theorem meet?_flip_right (l m : Line K) : l.meet? m.flip = l.meet? m := by
  have hx : l.c * -m.b - -m.c * l.b = -(l.c * m.b - m.c * l.b) := by ring
  have hy : l.a * -m.c - -m.a * l.c = -(l.a * m.c - m.a * l.c) := by ring
  rw [meet?_eq, meet?_eq, det_flip_right, abs_neg]
  simp only [flip, hx, hy, neg_div_neg_eq]

theorem meets_modify (lines : List (Line K)) (i : ℕ) :
    meets (lines.modify i flip) = meets lines := by
  induction lines generalizing i with
  | nil => rw [List.modify_nil]
  | cons l rest ih =>
    cases i with
    | zero =>
      rw [List.modify_zero_cons, meets, meets]
      simp only [meet?_flip_left]
    | succ i =>
      have hmap : (rest.modify i flip).map l.meet? = rest.map l.meet? :=
        map_modify_eq_map fun m _ => l.meet?_flip_right m
      have hrest : (rest.modify i flip).filterMap l.meet? = rest.filterMap l.meet? := by
        simpa [List.filterMap_map] using congrArg (List.filterMap id) hmap
      rw [List.modify_succ_cons, meets, meets, hrest, ih]

theorem intercepts_flip (l : Line K) : l.flip.intercepts = l.intercepts := by
  simp only [intercepts, meet?_flip_left]

end Line

namespace Problem

theorem negateConstraint_boundaries (p : Problem K) (i : ℕ) :
    (p.negateConstraint i).boundaries = p.boundaries.modify i Line.flip := by
  apply List.ext_getElem?
  intro j
  simp only [boundaries, negateConstraint_constraints, List.getElem?_map, List.getElem?_modify]
  cases p.constraints[j]? with
  | none => rfl
  | some c => split_ifs <;> simp

/-- The candidates are the same points in the same order. -/
theorem negateConstraint_candidateVertices (p : Problem K) (i : ℕ) :
    (p.negateConstraint i).candidateVertices = p.candidateVertices := by
  have hmap : (p.boundaries.modify i Line.flip).map Line.intercepts =
      p.boundaries.map Line.intercepts := map_modify_eq_map fun l _ => l.intercepts_flip
  rw [candidateVertices, candidateVertices, negateConstraint_boundaries, Line.meets_modify,
    List.flatMap_def, hmap, ← List.flatMap_def]

/-- The two directions of a line change places, so the same directions are tried. -/
theorem any_negateConstraint_directions (p : Problem K) (i : ℕ) (test : Point K → Bool) :
    (p.negateConstraint i).directions.any test = p.directions.any test := by
  have hlines : (p.boundaries.modify i Line.flip).map
      (fun l => test ⟨l.b, -l.a⟩ || test ⟨-l.b, l.a⟩) =
        p.boundaries.map fun l => test ⟨l.b, -l.a⟩ || test ⟨-l.b, l.a⟩ := by
    refine map_modify_eq_map fun l _ => ?_
    rw [Bool.or_comm]
    simp [Line.flip]
  have hany := congrArg (List.any · id) hlines
  simp only [List.any_map, Function.comp_def, id_eq] at hany
  simp [directions, negateConstraint_boundaries, List.any_flatMap, hany]

variable [IsStrictOrderedRing K]

theorem negateConstraint_feasibleVertices (p : Problem K) (i : ℕ) (tolerance : K) :
    (p.negateConstraint i).feasibleVertices tolerance = p.feasibleVertices tolerance := by
  have hfeasible : Point.feasible tolerance (p.negateConstraint i).constraints =
      Point.feasible tolerance p.constraints := by
    funext v
    rw [Point.feasible, Point.feasible, negateConstraint_constraints, all_modify_eq_all]
    intro c
    simp [Relation.holds_flipped_neg]
  rw [feasibleVertices, feasibleVertices, negateConstraint_candidateVertices, hfeasible]

theorem negateConstraint_recedesAlong (p : Problem K) (i : ℕ) (tolerance : K) (d : Point K) :
    (p.negateConstraint i).recedesAlong tolerance d = p.recedesAlong tolerance d := by
  rw [recedesAlong, recedesAlong, negateConstraint_constraints, all_modify_eq_all]
  intro c
  have hneg := Relation.holds_flipped_neg c.relation (c.boundary.valueAt d) 0 tolerance
  rw [neg_zero] at hneg
  simpa using hneg

variable [Polar K]

theorem negateConstraint_unboundedAlong (p : Problem K) (i : ℕ) (tolerance : K) :
    (p.negateConstraint i).unboundedAlong tolerance = p.unboundedAlong tolerance := by
  funext d
  simp only [unboundedAlong, negateConstraint_recedesAlong]
  rfl

theorem negateConstraint_bestVertex (p : Problem K) (i : ℕ) (tolerance : K) :
    (p.negateConstraint i).bestVertex tolerance = p.bestVertex tolerance := by
  have hbetter : (p.negateConstraint i).betterPoint = p.betterPoint := rfl
  simp only [bestVertex, negateConstraint_size, negateConstraint_feasibleVertices,
    any_negateConstraint_directions, negateConstraint_unboundedAlong, hbetter]

end Problem

/-- Of the two forms of a constraint, one has a negative right-hand side, and it is restated as the
other. -/
theorem Constraint.negated_standardized [IsStrictOrderedRing K] {c : Constraint K}
    (h : c.rhs ≠ 0) : c.negated.standardized = c.standardized := by
  rw [standardized_eq, standardized_eq, negated_rhs, negated_negated]
  rcases h.lt_or_gt with hneg | hpos
  · rw [if_pos hneg, if_neg (neg_nonneg.mpr hneg.le).not_gt]
  · rw [if_neg hpos.not_gt, if_pos (neg_neg_of_pos hpos)]

theorem Problem.negateConstraint_standardRows [IsStrictOrderedRing K] {p : Problem K} {i : ℕ}
    (h : ∀ c, p.constraints[i]? = some c → c.rhs ≠ 0) :
    (p.negateConstraint i).standardRows = p.standardRows :=
  map_modify_eq_map fun c hc => c.negated_standardized (h c hc)

namespace Solver
variable [IsStrictOrderedRing K] [Printable K]

/-- Both forms of the problem start from the same tableau, and a listing shows no more of a
constraint than its name and its row. -/
theorem present_negateConstraint (m : Method) (limits : Limits K) {p : Problem K} {i : ℕ}
    (h : ∀ c, p.constraints[i]? = some c → c.rhs ≠ 0) :
    present m (p.negateConstraint i) ((p.negateConstraint i).simplex limits) =
      present m p (p.simplex limits) := by
  have hrows := Problem.negateConstraint_standardRows h
  have hlabels : (p.constraints.modify i Constraint.negated).map Constraint.name =
      p.constraints.map Constraint.name := map_modify_eq_map fun _ _ => rfl
  rw [present, present, Problem.simplex_congr (p.negateConstraint_objective i) hrows,
    Problem.listing_congr (p.negateConstraint_objective i) rfl hlabels hrows]

end Solver

namespace Solver
variable [IsStrictOrderedRing K] [Printable K] [Polar K]

/-- A constraint may be multiplied by -1: the graphical method fails alike or finds the same point
with the same value, and where the right-hand side is not zero, the other methods answer the same
and show the same. -/
theorem solve_negateConstraint (s : Solver K) (p : Problem K) (i : Fin p.constraints.length) :
    (s.solveGraphical (p.negateConstraint i)).map (fun a => (a.status, a.coordinates, a.value)) =
      (s.solveGraphical p).map (fun a => (a.status, a.coordinates, a.value)) ∧
    (p.constraints[i].rhs ≠ 0 → s.solveSimplex (p.negateConstraint i) = s.solveSimplex p ∧
      s.solveGeneral (p.negateConstraint i) = s.solveGeneral p) := by
  constructor
  · rw [solveGraphical, solveGraphical, Problem.negateConstraint_validate,
      Problem.negateConstraint_bestVertex]
    cases p.validate with
    | error e => rfl
    | ok _ => cases p.bestVertex s.feasibilityTolerance <;> rfl
  · intro hrhs
    have h (c : Constraint K) (hc : p.constraints[(i : ℕ)]? = some c) : c.rhs ≠ 0 := by
      obtain ⟨_, rfl⟩ := List.getElem?_eq_some_iff.mp hc
      exact hrhs
    rw [solveSimplex, solveSimplex, solveGeneral, solveGeneral, Problem.negateConstraint_validate,
      present_negateConstraint .simplex _ h, present_negateConstraint .general _ h]
    exact ⟨rfl, rfl⟩

/-- An equation with a negative right-hand side is solved like its negation. -/
theorem solve_negateConstraint_mixedRows :
    (Problem.mixedRows.constraints[2]).rhs ≠ 0 ∧
      (default.solveGraphical (Problem.mixedRows.negateConstraint 2)).map
          (fun a => (a.status, a.coordinates, a.value)) = .ok (.optimal, [5 / 2, 3 / 2], 21 / 2) ∧
      default.solveGeneral (Problem.mixedRows.negateConstraint 2) =
        default.solveGeneral Problem.mixedRows := by
  have h := solve_negateConstraint default Problem.mixedRows (2 : Fin 4)
  have hrhs : (Problem.mixedRows.constraints[2]).rhs ≠ 0 := by decide +kernel
  refine ⟨hrhs, h.1.trans ?_, (h.2 hrhs).2⟩
  decide +kernel

end Solver
end LinProg
