import LinProg.Proofs.Problem.Mirror
import LinProg.Proofs.Scalar.Rational
import LinProg.Proofs.Solver.Limits

/-!
# Maximizing and minimizing are mirror images

A problem and its mirror image are solved by the same method with the same steps. Their solutions
have the same status and point, and values of opposite sign. What is shown of them differs in one
row only, which the general method has for the objective in the standard form.
-/
namespace LinProg
variable {K : Type}

section
variable [Scalar K] [Printable K]

omit [Printable K] in
@[simp] theorem Problem.mirrored_columnNames (p : Problem K) :
    p.mirrored.columnNames = p.columnNames := by
  rw [columnNames, mirrored_columns]
  rfl

namespace Simplex

/-- The line of the objective in the standard form. -/
def objectiveLine (p : Problem K) : List String :=
  ["", "Z", p.objective.sense.name ++ " Z = " ++
    Display.linearExpression p.objective.coefficients (p.columnNames.take p.size)]

/-- The row of the objective in a listing. -/
def objectiveRow (p : Problem K) : List String :=
  padded (header p.columnNames).length "" (objectiveLine p)

/-- Of the lines of the standard form, only that of the objective shows the objective. -/
theorem exists_standardLines (p : Problem K) : ∃ lines,
    standardLines p = ["Standard form"] :: objectiveLine p :: lines ∧
      standardLines p.mirrored = ["Standard form"] :: objectiveLine p.mirrored :: lines := by
  simp only [standardLines, objectiveLine, List.cons_append, List.nil_append,
    Problem.mirrored_columnNames, Problem.mirrored_artificialCosts,
    Problem.mirrored_artificialColumns, Problem.mirrored_initialRows, Problem.mirrored_constraints]
  exact ⟨_, rfl, rfl⟩

theorem listing_mirrored (p : Problem K) (visited : List (Snapshot K)) :
    listing p.mirrored false visited = listing p false visited := by
  simp [listing]

theorem exists_listing_rows (p : Problem K) (visited : List (Snapshot K)) : ∃ title rows,
    (listing p true visited).rows = title :: objectiveRow p :: rows ∧
      (listing p.mirrored true visited).rows = title :: objectiveRow p.mirrored :: rows := by
  obtain ⟨lines, hlines, hmirrored⟩ := exists_standardLines p
  rw [listing_rows, listing_rows, hlines, hmirrored, listing_mirrored, Problem.mirrored_columnNames,
    objectiveRow, objectiveRow, Problem.mirrored_columnNames]
  exact ⟨_, _, rfl, rfl⟩

end Simplex

/-- The second solution, which is one of the mirrored problem, is the mirror image of the first. -/
structure Solution.Mirrors (p : Problem K) (a b : Solution K) : Prop where
  status : b.status = a.status
  method : b.method = a.method
  coordinates : b.coordinates = a.coordinates
  value : b.value = -a.value
  headers : b.table.headers = a.table.headers
  rows : b.table.rows = a.table.rows ∨ a.method = some .general ∧ ∃ title rows,
    a.table.rows = title :: Simplex.objectiveRow p :: rows ∧
      b.table.rows = title :: Simplex.objectiveRow p.mirrored :: rows

theorem Solution.mirrors_optimal {p : Problem K} (m : Method) (coordinates : List K) (value : K)
    {t t' : Table} (hheaders : t'.headers = t.headers)
    (hrows : t'.rows = t.rows ∨ m = .general ∧ ∃ title rows,
      t.rows = title :: Simplex.objectiveRow p :: rows ∧
        t'.rows = title :: Simplex.objectiveRow p.mirrored :: rows) :
    (optimal m coordinates value t).Mirrors p (optimal m coordinates (-value) t') :=
  ⟨rfl, rfl, rfl, rfl, hheaders, hrows.imp_right fun h => ⟨congrArg some h.1, h.2⟩⟩

/-- Both results are the same failure, or the second is the mirror image of the first. -/
def ResultsMirror (p : Problem K) :
    Except Failure (Solution K) → Except Failure (Solution K) → Prop
  | .error e, .error e' => e' = e
  | .ok a, .ok b => a.Mirrors p b
  | _, _ => False

theorem Problem.mirrored_graphicalTable (p : Problem K) :
    p.mirrored.graphicalTable = p.graphicalTable := rfl

omit [Printable K] in
theorem Problem.normalized_eq_self {p : Problem K} (h : p.toggles = .none) : p.normalized = p := by
  obtain ⟨names, objective, constraints, toggles⟩ := p
  cases h
  rfl

end

namespace Solver
variable [Field K] [LinearOrder K] [Printable K]

theorem present_mirrored (m : Method) (p : Problem K) (run : Run K) :
    ResultsMirror p (present m p run) (present m p.mirrored run.mirrored) := by
  cases h : run.outcome with
  | error e => simp [present, Run.mirrored, h, Except.map, ResultsMirror]
  | ok best =>
    have hheaders (withStandardForm : Bool) :
        (Simplex.listing p.mirrored withStandardForm run.trace).headers =
          (Simplex.listing p withStandardForm run.trace).headers := by simp
    simp only [present, Run.mirrored, h, Except.map]
    refine Solution.mirrors_optimal m best.coordinates best.value (hheaders _) ?_
    by_cases hm : m = .general
    · subst hm
      exact .inr ⟨rfl, Simplex.exists_listing_rows p run.trace⟩
    · rw [beq_eq_false_iff_ne.mpr hm, Simplex.listing_mirrored]
      exact .inl rfl

theorem mirrors_failed (p : Problem K) (status : Status) (m : Option Method) :
    (Solution.failed status m : Solution K).Mirrors p (.failed status m) :=
  ⟨rfl, rfl, rfl, neg_zero.symm, rfl, .inl rfl⟩

variable [IsStrictOrderedRing K] [Polar K]

theorem solveBy_mirrored (s : Solver K) (p : Problem K) (m : Method) :
    ResultsMirror p (s.solveBy p m) (s.solveBy p.mirrored m) := by
  have hvalidate : p.mirrored.validate = p.validate := by
    rw [Problem.validate, Problem.validate, Problem.mirrored_fault?]
  by_cases hm : m = .graphical
  · subst hm
    simp only [solveBy, solveGraphical, hvalidate, Problem.mirrored_bestVertex,
      Problem.mirrored_valueAt, Problem.mirrored_graphicalTable]
    cases p.validate with
    | error e => rfl
    | ok _ =>
      cases p.bestVertex s.feasibilityTolerance with
      | error e => rfl
      | ok best => exact Solution.mirrors_optimal .graphical _ _ rfl (.inl rfl)
  · rw [solveBy_of_ne_graphical s p hm, solveBy_of_ne_graphical s p.mirrored hm, hvalidate,
      Problem.mirrored_simplex]
    cases p.validate with
    | error e => rfl
    | ok _ => exact present_mirrored m p _

/-- The solution of a mirrored problem is the mirror image of that of the problem. -/
theorem solve_mirrored (s : Solver K) {p : Problem K} (h : p.toggles = .none) (asked : Method) :
    (s.solve p asked).Mirrors p (s.solve p.mirrored asked) := by
  have hmirrored : p.mirrored.toggles = .none := h
  rw [solve, solve, Problem.mirrored_fault?, Problem.normalized_eq_self h,
    Problem.normalized_eq_self hmirrored]
  cases p.fault? with
  | some fault => exact mirrors_failed p fault.status none
  | none =>
    have hroute : Method.route p.mirrored asked = Method.route p asked := by
      simp only [Method.route, Problem.mirrored_size]
    simp only [hroute]
    have hresults := solveBy_mirrored s p (Method.route p asked)
    cases hp : s.solveBy p (Method.route p asked) <;>
      cases hq : s.solveBy p.mirrored (Method.route p asked) <;>
      rw [hp, hq] at hresults
    · cases hresults
      exact mirrors_failed p _ _
    · exact hresults.elim
    · exact hresults.elim
    · exact hresults

theorem solve_mirrored_threeProducts : threeProducts.toggles = .none ∧
    (default.solve threeProducts .general).status = .optimal ∧
      (default.solve threeProducts .general).Mirrors threeProducts
        (default.solve threeProducts.mirrored .general) ∧
      (default.solve threeProducts.mirrored .general).value = -(765 / 41) := by
  have hmirrors := solve_mirrored default (p := threeProducts) rfl .general
  have hvalue : (default.solve threeProducts .general).value = 765 / 41 := by decide +kernel
  exact ⟨rfl, by decide +kernel, hmirrors, by rw [hmirrors.value, hvalue]⟩

end Solver
end LinProg
