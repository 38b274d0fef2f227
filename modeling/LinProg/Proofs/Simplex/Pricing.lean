import LinProg.Proofs.Simplex.Feasible
import LinProg.Proofs.Simplex.Settled

/-!
# What an optimal and an unbounded tableau show

Reduced costs that are not positive bound the cost of every non-negative solution by that of the
basic one. A column that pays and that no row bounds leads along an edge of solutions to costs
beyond every bound.
-/
namespace LinProg
open Finset
variable {K : Type} [Field K] [LinearOrder K]

theorem add_edge_nonneg [IsStrictOrderedRing K] {rows : List (Row K)}
    (hrhs : ∀ r ∈ rows, 0 ≤ r.rhs) {column : ℕ} (hentry : ∀ r ∈ rows, r.entry column ≤ 0) {t : K}
    (ht : 0 ≤ t) (j : ℕ) : 0 ≤ basicSolution rows j + t * edge rows column j :=
  add_nonneg (basicSolution_nonneg hrhs j) (mul_nonneg ht (edge_nonneg hentry j))

namespace Problem
variable {p : Problem K}

theorem length_realColumns_le_idxOf {c : Column} (h : c ∈ p.artificialColumns) :
    p.realColumns.length ≤ p.columns.idxOf c := by
  have hlen : p.columns.idxOf c < p.columns.length :=
    List.idxOf_lt_length_iff.mpr (List.mem_append_right _ h)
  rw [← isArtificial_getElem_iff hlen, List.getElem_idxOf]
  exact isArtificial_of_mem_artificialColumns h

theorem value_optimumAt (p : Problem K) (rows : List (Row K)) :
    (p.optimumAt rows).value = p.objective.sense.signed (basicValue p.objectiveCosts rows) := by
  rw [optimumAt]
  cases p.objective.sense <;> rfl

namespace IsTableau
variable {rows : List (Row K)}

theorem coordinates_optimumAt (h : p.IsTableau rows) :
    (p.optimumAt rows).coordinates = p.pointOf (basicSolution rows) :=
  h.canonical.basicPoint_eq p.size

/-- The value that a tableau shows is that of the objective at the point that it shows. -/
theorem value_eq_objectiveAt (h : p.IsTableau rows) :
    (p.optimumAt rows).value = p.objectiveAt (p.optimumAt rows).coordinates := by
  rw [h.coordinates_optimumAt, value_optimumAt, ← h.canonical.totalCost_basicSolution,
    totalCost_objectiveCosts, Sense.signed_signed]

theorem basicSolution_solves (h : p.IsTableau rows) :
    Solves p.columns.length p.initialRows (basicSolution rows) :=
  (h.solves_iff _).mp h.canonical.basicSolution_solves

theorem add_edge_solves (h : p.IsTableau rows) {column : ℕ} (hcolumn : column < p.columns.length)
    (t : K) : Solves p.columns.length p.initialRows
      (fun j => basicSolution rows j + t * edge rows column j) :=
  (h.solves_iff _).mp (h.canonical.add_edge_solves hcolumn h.canonical.basicSolution_solves t)

theorem totalCost_add_edge (h : p.IsTableau rows) (costs : List K) {column : ℕ}
    (hcolumn : column < p.columns.length) (t : K) :
    totalCost p.columns.length costs (fun j => basicSolution rows j + t * edge rows column j) =
      basicValue costs rows + t * reducedCost costs rows column := by
  rw [← h.canonical.totalCost_basicSolution costs, ← h.canonical.totalCost_edge costs hcolumn]
  simp only [totalCost, mul_add, sum_add_distrib, mul_sum, mul_left_comm]

variable [IsStrictOrderedRing K]

/-- No solution in non-negative values of the columns that may enter costs more than the basic one
once none of them pays. -/
theorem totalCost_le (h : p.IsTableau rows) {costs : List K} {eligible : ℕ}
    (hcosts : ∀ j < eligible, reducedCost costs rows j ≤ 0) {y : ℕ → K}
    (hy : Solves p.columns.length p.initialRows y) (hpos : ∀ j, 0 ≤ y j)
    (hzero : ∀ j < p.columns.length, eligible ≤ j → y j = 0) :
    totalCost p.columns.length costs y ≤ basicValue costs rows := by
  rw [Canonical.totalCost_eq costs ((h.solves_iff y).mpr hy)]
  refine add_le_of_nonpos_right (sum_nonpos fun j hj => ?_)
  rcases lt_or_ge j eligible with hlt | hge
  · exact mul_nonpos_of_nonpos_of_nonneg (hcosts j hlt) (hpos j)
  · rw [hzero j (mem_range.mp hj) hge, mul_zero]

/-- Along an edge that pays, the cost passes every bound. -/
theorem exists_totalCost_gt (h : p.IsTableau rows) {costs : List K} {column : ℕ}
    (hcolumn : column < p.columns.length) (hcost : 0 < reducedCost costs rows column) (bound : K) :
    ∃ t, 0 ≤ t ∧ bound < totalCost p.columns.length costs
      (fun j => basicSolution rows j + t * edge rows column j) := by
  obtain ⟨t, ht, hgt⟩ := exists_lt_add_mul (basicValue costs rows) hcost bound
  exact ⟨t, ht, by rwa [h.totalCost_add_edge costs hcolumn]⟩

end IsTableau
end Problem
end LinProg
