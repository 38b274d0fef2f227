import LinProg.Proofs.Simplex.Costs
import LinProg.Proofs.Simplex.Phase

/-!
# The tableaus of a run

Every tableau that a run visits is canonical and has the solutions of the first one, whatever the
tolerance: pivots are only made on entries that exceed it in magnitude. Neither the signs of the
right-hand sides nor the length of the run matter.
-/
namespace LinProg
variable {K : Type} [Field K] [LinearOrder K]

/-- A step between the phases leaves a row alone if its entries in real columns do not count. -/
theorem entry_le_of_replaceArtificial {t : K} [IsStrictOrderedRing K] (ht : 0 ≤ t) {real : ℕ}
    {r : Row K} (h : ∀ v ∈ r.entries.take real, ¬ t < Scalar.abs v) {j : ℕ} (hj : j < real) :
    |r.entry j| ≤ t := by
  rw [Row.entry]
  cases hget : r.entries[j]? with
  | none => simpa using ht
  | some v =>
    have hmem : v ∈ r.entries.take real :=
      List.mem_of_getElem? (i := j) (by rw [List.getElem?_take_of_lt hj, hget])
    exact not_lt.mp (h v hmem)

namespace Problem

/-- The rows are solved for their basic columns and have the solutions of the first rows. -/
structure IsTableau (p : Problem K) (rows : List (Row K)) : Prop where
  canonical : Canonical p.columns.length rows
  solves_iff : ∀ y, Solves p.columns.length rows y ↔ Solves p.columns.length p.initialRows y

variable {p : Problem K}

theorem isTableau_initialRows (p : Problem K) : p.IsTableau p.initialRows :=
  ⟨p.initialRows_canonical, fun _ => Iff.rfl⟩

namespace IsTableau
variable {rows : List (Row K)}

theorem pivot (h : p.IsTableau rows) {row column : ℕ} (hrow : row < rows.length)
    (hcolumn : column < p.columns.length) (hentry : rows[row].entry column ≠ 0) :
    p.IsTableau (pivot rows row column) :=
  ⟨h.canonical.pivot hrow hcolumn hentry,
    fun y => (solves_pivot_iff hrow h.canonical.width hentry y).trans (h.solves_iff y)⟩

/-- A pivot that a stage chooses leads from tableau to tableau. -/
theorem choose (h : p.IsTableau rows) {s : Stage K} (ht : 0 ≤ s.tolerance)
    (hcosts : s.costs.length ≤ p.columns.length) {column row : ℕ}
    (hcolumn : s.entering? rows = some column)
    (hleaving : (s.choose rows column).leaving = some row) :
    p.IsTableau (LinProg.pivot rows row column) := by
  obtain ⟨_, hlen, _⟩ := Stage.entering?_eq_some hcolumn
  obtain ⟨hrow, hentry, _⟩ := Stage.leaving_eq_some hleaving
  exact h.pivot hrow (hlen.trans_le hcosts) (ht.trans_lt hentry).ne'

theorem run (h : p.IsTableau rows) {s : Stage K} (ht : 0 ≤ s.tolerance)
    (hcosts : s.costs.length ≤ p.columns.length) (left made : ℕ) :
    p.IsTableau (s.run left made rows).rows :=
  s.run_induction (fun _ _ _ h => h.choose ht hcosts) left made h

/-- So does any number of steps between the phases. -/
theorem replaceArtificials [IsStrictOrderedRing K] (h : p.IsTableau rows) {t : K} (ht : 0 ≤ t)
    (passed : List ℕ) :
    p.IsTableau (passed.foldl (replaceArtificial p.realColumns.length t) rows) := by
  refine replaceArtificial_induction (fun rows row column h hrow _ hcolumn hentry => ?_) h passed
  refine h.pivot hrow (hcolumn.trans_le p.length_realColumns_le) fun h0 => ?_
  rw [h0, Scalar.abs_exact, abs_zero] at hentry
  exact absurd hentry ht.not_gt

theorem driveOut [IsStrictOrderedRing K] (h : p.IsTableau rows) {t : K} (ht : 0 ≤ t) :
    p.IsTableau (driveOut p.realColumns.length t rows) := h.replaceArtificials ht _

end IsTableau

/-- An optimum is read off the last tableau that the run records. -/
theorem exists_tableau_of_ok [IsStrictOrderedRing K] (limits : Limits K)
    (ht : 0 ≤ limits.tolerance) {best : Optimum K} (h : (p.simplex limits).outcome = .ok best) :
    ∃ s, (p.simplex limits).trace.getLast? = some s ∧ p.IsTableau s.rows ∧
      p.optimumAt s.rows = best := by
  have hleg {rows : List (Row K)} (hrows : p.IsTableau rows) (left made : ℕ)
      (hending : ((p.stageTwo limits).run left made rows).ending = .optimal)
      (hbest : p.optimumAt ((p.stageTwo limits).run left made rows).rows = best)
      (before : List (Snapshot K)) : ∃ s,
        (before ++ ((p.stageTwo limits).run left made rows).trace).getLast? = some s ∧
          p.IsTableau s.rows ∧ p.optimumAt s.rows = best := by
    obtain ⟨visited, htrace⟩ := Stage.run_trace_of_optimal _ _ _ _ hending
    rw [htrace, ← List.append_assoc, List.getLast?_concat]
    exact ⟨_, rfl, hrows.run ht p.length_objectiveCosts.le left made, hbest⟩
  rcases simplex_ok_cases h with ⟨_, hending, hbest, htrace⟩ | ⟨_, _, hending, hbest, htrace⟩
  · rw [htrace]
    exact hleg p.isTableau_initialRows _ _ hending hbest []
  · rw [htrace]
    exact hleg ((p.isTableau_initialRows.run (s := p.stageOne limits) ht
      p.length_artificialCosts.le _ _).driveOut ht) _ _ hending hbest _

end Problem
end LinProg
