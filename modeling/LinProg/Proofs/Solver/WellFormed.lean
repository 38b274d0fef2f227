import LinProg.Proofs.Arrays.Solving
import LinProg.Proofs.Solver.Answers

/-!
# Solutions are well formed

Solving accesses no array out of range, whatever the problem, the bounds and the numbers are, and a
solution is whole. One that shows an optimum has a coordinate for each variable and a table whose
rows are as wide as its header; any other solution is empty. Nothing is assumed of the numbers.
-/
namespace LinProg

/-- Every row is as wide as the header. -/
def Table.Rectangular (t : Table) : Prop := ∀ row ∈ t.rows, row.length = t.headers.length

namespace Table

/-- Rows that are not wider than the header are filled up to its width. -/
theorem rectangular_pushAll {headers : List String} {rows : List (List String)}
    (h : ∀ cells ∈ rows, cells.length ≤ headers.length) :
    ((ofHeaders headers).pushAll rows).Rectangular := by
  rw [pushAll_eq]
  intro row hrow
  obtain ⟨cells, hcells, rfl⟩ := List.mem_map.mp hrow
  rw [length_padded]
  exact Nat.max_eq_left (h cells hcells)

end Table

variable {K : Type} [Scalar K]

namespace Simplex
variable [Printable K]

theorem length_header (names : List String) : (header names).length = names.length + 4 := by
  simp only [header, List.length_append, List.length_cons, List.length_nil]
  omega

theorem length_of_mem_standardLines {p : Problem K} {cells : List String}
    (h : cells ∈ standardLines p) : cells.length ≤ 3 := by
  rw [standardLines, List.mem_append, List.mem_append] at h
  rcases h with (htitle | hartificial) | hequation
  · simp only [List.mem_cons, List.not_mem_nil, or_false] at htitle
    rcases htitle with rfl | rfl <;> simp
  · split at hartificial
    · exact absurd hartificial List.not_mem_nil
    · rw [List.mem_singleton.mp hartificial]
      simp
  · obtain ⟨i, hi, rfl⟩ := List.getElem_of_mem hequation
    simp

theorem length_of_mem_snapshotLines {p : Problem K} {t : Snapshot K}
    (ht : t.Fits p.columns.length) {twoPhases : Bool} {cells : List String}
    (h : cells ∈ snapshotLines p.columnNames twoPhases t) :
    cells.length ≤ p.columns.length + 4 := by
  have hnames : p.columnNames.length = p.columns.length := List.length_map _
  rw [snapshotLines, List.mem_append, List.mem_append] at h
  rcases h with (htitle | hrow) | hcosts
  · simp only [List.mem_cons, List.not_mem_nil, or_false] at htitle
    rcases htitle with rfl | rfl
    · simp
    · rw [length_header, hnames]
  · obtain ⟨i, hi, rfl⟩ := List.getElem_of_mem hrow
    rw [List.length_zipWith] at hi
    have hlen := ht.shaped.length_entries t.rows[i] (List.getElem_mem (by omega))
    rw [List.getElem_zipWith]
    simp [rowLine, hlen]
  · have hlen := ht.length_costs
    have hreduced := ht.length_reduced
    simp only [List.mem_cons, List.not_mem_nil, or_false] at hcosts
    rcases hcosts with rfl | rfl
    · simp [hlen]
    · simp [hreduced]

theorem rectangular_listing {p : Problem K} {visited : List (Snapshot K)}
    (h : ∀ t ∈ visited, t.Fits p.columns.length) (withStandardForm : Bool) :
    (listing p withStandardForm visited).Rectangular := by
  have hwidth : (header p.columnNames).length = p.columns.length + 4 := by
    rw [length_header, Problem.columnNames, List.length_map]
  apply Table.rectangular_pushAll
  intro cells hcells
  rw [hwidth]
  rcases List.mem_append.mp hcells with hstandard | hsnapshot
  · split at hstandard
    · have hlen := length_of_mem_standardLines hstandard
      omega
    · exact absurd hstandard List.not_mem_nil
  · obtain ⟨t, ht, hcells⟩ := List.mem_flatMap.mp hsnapshot
    exact length_of_mem_snapshotLines (h t ht) hcells

end Simplex

namespace Problem

theorem rectangular_graphicalTable [Printable K] (p : Problem K) :
    p.graphicalTable.Rectangular := by
  apply Table.rectangular_pushAll
  intro cells hcells
  rcases List.mem_append.mp hcells with hrow | haxes
  · obtain ⟨i, hi, rfl⟩ := List.mem_mapIdx.mp hrow
    have hpoints : (p.drawingPoints i p.constraints[i].boundary).length ≤ listedPoints := by
      rw [drawingPoints, List.length_take]
      exact Nat.min_le_left _ _
    simp only [graphicalRow, List.length_append, length_padded, List.length_map,
      Nat.max_eq_left hpoints]
    simp [listedPoints]
  · rw [List.mem_singleton.mp haxes]
    simp [axesRow, listedPoints]

theorem length_coordinates_of_simplex {p : Problem K} {limits : Limits K} {best : Optimum K}
    (h : (p.simplex limits).outcome = .ok best) : best.coordinates.length = p.size := by
  have hleg {leg : Leg K} (hok : p.outcomeOf limits leg = .ok best) :
      best.coordinates.length = p.size := by
    rw [← (outcomeOf_eq_ok.mp hok).2]
    exact length_basicPoint _ _
  by_cases hart : p.artificialColumns.isEmpty = true
  · rw [simplex_of_isEmpty hart] at h
    exact hleg h
  · cases he : p.phaseOneFailure? limits
        ((p.stageOne limits).run limits.pivots 0 p.initialRows) with
    | some failure =>
      rw [simplex_of_failure hart he] at h
      cases h
    | none =>
      rw [simplex_of_accepted hart he] at h
      exact hleg h

theorem size_of_bestVertex [Polar K] {p : Problem K} {tolerance : K} {best : Point K}
    (h : p.bestVertex tolerance = .ok best) : p.size = 2 := by
  by_contra hsize
  rw [bestVertex, if_pos hsize] at h
  cases h

end Problem

/-- A solution that shows an optimum is whole, and any other is empty. -/
structure Solution.WellFormed (a : Solution K) (n : ℕ) (method : Method) : Prop where
  of_optimal : a.status = .optimal →
    a.coordinates.length = n ∧ a.method = some method ∧ a.table.Rectangular
  of_failed : a.status ≠ .optimal → a.coordinates = [] ∧ a.value = 0 ∧ a.table = .empty

namespace Solution

theorem wellFormed_optimal {coordinates : List K} {table : Table} (htable : table.Rectangular)
    (method : Method) (value : K) :
    (optimal method coordinates value table).WellFormed coordinates.length method := by
  constructor
  · intro _
    exact ⟨rfl, rfl, htable⟩
  · intro h
    exact absurd rfl h

theorem wellFormed_failed {status : Status} (h : status ≠ .optimal) (reported : Option Method)
    (n : ℕ) (method : Method) :
    (failed status reported : Solution K).WellFormed n method := by
  constructor
  · intro hoptimal
    exact absurd hoptimal h
  · intro _
    exact ⟨rfl, rfl, rfl⟩

end Solution

namespace Solver
variable [Printable K]

theorem wellFormed_of_present {p : Problem K} {limits : Limits K} {method : Method}
    {answer : Solution K} (h : present method p (p.simplex limits) = .ok answer) :
    answer.WellFormed p.size method := by
  obtain ⟨best, hbest, rfl⟩ := present_eq_ok.mp h
  rw [← Problem.length_coordinates_of_simplex hbest]
  exact Solution.wellFormed_optimal
    (Simplex.rectangular_listing (p.fits_of_mem_simplex limits) _) method best.value

variable [Polar K]

theorem wellFormed_of_solveBy {s : Solver K} {p : Problem K} {method : Method}
    {answer : Solution K} (h : s.solveBy p method = .ok answer) :
    answer.WellFormed p.size method := by
  by_cases hmethod : method = .graphical
  · subst hmethod
    obtain ⟨_, h⟩ := of_validate_bind h
    cases hbest : p.bestVertex s.feasibilityTolerance with
    | error failure =>
      rw [hbest] at h
      cases h
    | ok best =>
      rw [hbest] at h
      rw [← Except.ok.inj h, Problem.size_of_bestVertex hbest]
      exact Solution.wellFormed_optimal p.rectangular_graphicalTable .graphical (p.valueAt best)
  · rw [solveBy_of_ne_graphical s p hmethod] at h
    exact wellFormed_of_present (of_validate_bind h).2

/-- Whatever the problem, the bounds and the numbers are, no access of the solver to an array is out
of range, and its solution is well formed. -/
theorem solve_in_range_wellFormed (s : Solver K) (p : Problem K) (asked : Method) :
    Arrays.solve s p asked = some (s.solve p asked) ∧
      (s.solve p asked).WellFormed p.size (Method.route p asked) := by
  have hroute : Method.route p.normalized asked = Method.route p asked := by
    simp only [Method.route, Problem.size_normalized]
  constructor
  · exact Arrays.solve_eq s p asked
  · rw [solve, hroute]
    cases p.fault? with
    | some fault => exact Solution.wellFormed_failed (status_ne_optimal fault) _ _ _
    | none =>
      cases hanswer : s.solveBy p.normalized (Method.route p asked) with
      | error failure =>
        simp only [hanswer]
        exact Solution.wellFormed_failed (status_ne_optimal failure) _ _ _
      | ok answer =>
        simp only [hanswer]
        have hwell := wellFormed_of_solveBy hanswer
        rwa [Problem.size_normalized] at hwell

end Solver
end LinProg
