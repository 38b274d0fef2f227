import LinProg.Proofs.Simplex.Steps
import LinProg.Proofs.Simplex.Tableaus
import Mathlib.Data.Fintype.BigOperators
import Mathlib.Data.Fintype.Pigeonhole

/-!
# Tableaus and their bases

Two tableaus of one problem that are solved for the same columns are the same. There are only so
many bases, so a phase that goes on for longer comes back to a tableau that it has visited.
-/
namespace LinProg
open Finset
variable {K : Type} [Field K] [LinearOrder K]

namespace Row

theorem ext_entry {n : ℕ} {r s : Row K} (hr : r.entries.length = n) (hs : s.entries.length = n)
    (hbasic : r.basic = s.basic) (hentry : ∀ j < n, r.entry j = s.entry j) (hrhs : r.rhs = s.rhs) :
    r = s := by
  have hentries : r.entries = s.entries := by
    apply List.ext_getElem (hr.trans hs.symm)
    intro j hj hj'
    have h := hentry j (hr ▸ hj)
    simpa [entry, hj, hj'] using h
  cases r
  cases s
  simp_all

end Row

namespace Canonical
variable {n : ℕ} {rows others : List (Row K)}

/-- A row that another tableau of the same basis has picks one term out of a sum over the basis. -/
theorem sum_unit_of_basic (h : Canonical n others) (hlen : rows.length = others.length)
    (hbasic : ∀ i (hi : i < rows.length), rows[i].basic = (others.get ⟨i, hlen ▸ hi⟩).basic)
    {k : ℕ} (hk : k < rows.length) (g : Fin rows.length → K) :
    ∑ i, (others.get ⟨k, hlen ▸ hk⟩).entry rows[i].basic * g i = g ⟨k, hk⟩ := by
  have hunit (i : Fin rows.length) :
      (others.get ⟨k, hlen ▸ hk⟩).entry rows[i].basic = if k = i then 1 else 0 := by
    have hi := hbasic i i.isLt
    simp only [Fin.getElem_fin] at hi ⊢
    rw [hi]
    exact h.unit k (hlen ▸ hk) i (hlen ▸ i.isLt)
  rw [sum_eq_single (⟨k, hk⟩ : Fin rows.length)]
  · rw [hunit, if_pos rfl, one_mul]
  · intro i _ hne
    have hki : k ≠ i := fun hki => hne (Fin.ext hki.symm)
    rw [hunit, if_neg hki, zero_mul]
  · simp

/-- The columns that the rows are solved for and the solutions leave no choice for the rows. -/
theorem rows_eq (h : Canonical n rows) (h' : Canonical n others)
    (hlen : rows.length = others.length)
    (hbasic : ∀ i (hi : i < rows.length), rows[i].basic = (others.get ⟨i, hlen ▸ hi⟩).basic)
    (hsolves : ∀ y, Solves n rows y → Solves n others y) : rows = others := by
  apply List.ext_getElem hlen
  intro k hk hk'
  have hlhs (y : ℕ → K) (hy : Solves n rows y) : others[k].lhs n y = others[k].rhs :=
    hsolves y hy others[k] (List.getElem_mem hk')
  have hbase := hlhs _ h.basicSolution_solves
  have hrhs : rows[k].rhs = others[k].rhs := by
    rw [Row.lhs] at hbase
    simp only [basicSolution] at hbase
    rw [h.sum_basic] at hbase
    exact (h'.sum_unit_of_basic hlen hbasic hk fun i => rows[i].rhs).symm.trans hbase
  have hentry (j : ℕ) (hj : j < n) : rows[k].entry j = others[k].entry j := by
    have hedge := hlhs _ (h.add_edge_solves hj h.basicSolution_solves 1)
    rw [Row.lhs_add_mul, hbase, one_mul, add_eq_left, Row.lhs] at hedge
    simp only [edge, mul_sub, sum_sub_distrib] at hedge
    rw [h.sum_basic] at hedge
    have hsum := h'.sum_unit_of_basic hlen hbasic hk fun i => rows[i].entry j
    simp only [mul_ite, mul_one, mul_zero, sum_ite_eq', mem_range, hj, if_true] at hedge
    exact hsum.symm.trans (sub_eq_zero.mp hedge).symm
  exact Row.ext_entry (h.width _ (List.getElem_mem hk)) (h'.width _ (List.getElem_mem hk'))
    (hbasic k hk) hentry hrhs

/-- A pivot changes the value by the ratio of its row times the reduced cost of its column. -/
theorem basicValue_pivot (h : Canonical n rows) (costs : List K) {row column : ℕ}
    (hrow : row < rows.length) (hcolumn : column < n) (hentry : rows[row].entry column ≠ 0) :
    basicValue costs (LinProg.pivot rows row column) = basicValue costs rows +
      rows[row].rhs / rows[row].entry column * reducedCost costs rows column := by
  have hpivot := h.pivot hrow hcolumn hentry
  have hsolves : Solves n rows (basicSolution (LinProg.pivot rows row column)) :=
    (solves_pivot_iff hrow h.width hentry _).mp hpivot.basicSolution_solves
  rw [← hpivot.totalCost_basicSolution, totalCost_eq costs hsolves]
  congr 1
  simp only [basicSolution]
  rw [hpivot.sum_basic, sum_eq_single (⟨row, by simpa using hrow⟩ : Fin _)]
  · simp [getElem_pivot hrow, mul_comm]
  · -- the other rows keep their columns, which do not pay
    intro i _ hne
    have hi : (i : ℕ) < rows.length := by simpa using i.isLt
    have hir : (i : ℕ) ≠ row := fun hir => hne (Fin.ext hir)
    simp [getElem_pivot hrow, hir, h.reducedCost_basic costs hi]
  · simp

end Canonical

namespace Problem.IsTableau
variable {p : Problem K} {rows others : List (Row K)}

theorem rows_eq (h : p.IsTableau rows) (h' : p.IsTableau others)
    (hlen : rows.length = others.length)
    (hbasic : ∀ i (hi : i < rows.length), rows[i].basic = (others.get ⟨i, hlen ▸ hi⟩).basic) :
    rows = others :=
  h.canonical.rows_eq h'.canonical hlen hbasic fun y hy =>
    (h'.solves_iff y).mpr ((h.solves_iff y).mp hy)

/-- What a stage may do on the tableaus of a problem. -/
theorem after (h : p.IsTableau rows) {s : Stage K} (ht : 0 ≤ s.tolerance)
    (hcosts : s.costs.length ≤ p.columns.length) {k : ℕ} {here : List (Row K)}
    (hk : s.after rows k = some here) : p.IsTableau here ∧ here.length = rows.length := by
  refine Stage.after_induction (P := fun here => p.IsTableau here ∧ here.length = rows.length)
    (fun before column row hbefore hcolumn hleaving => ?_) ⟨h, rfl⟩ hk
  refine ⟨hbefore.1.choose ht hcosts hcolumn hleaving, ?_⟩
  rw [length_pivot, hbefore.2]

/-- Among more tableaus than there are bases, one occurs twice. -/
theorem exists_eq_of_many {m : ℕ} (visited : Fin (p.columns.length ^ m + 1) → List (Row K))
    (h : ∀ k, p.IsTableau (visited k)) (hlen : ∀ k, (visited k).length = m) :
    ∃ i j, i < j ∧ visited i = visited j := by
  let basis (k : Fin (p.columns.length ^ m + 1)) (i : Fin m) : Fin p.columns.length :=
    ⟨((visited k).get (i.cast (hlen k).symm)).basic,
      (h k).canonical.basic_lt _ (List.get_mem _ _)⟩
  obtain ⟨i, j, hne, hbasis⟩ : ∃ i j, i ≠ j ∧ basis i = basis j := by
    apply Fintype.exists_ne_map_eq_of_card_lt
    simp
  have heq : visited i = visited j := by
    apply (h i).rows_eq (h j) ((hlen i).trans (hlen j).symm)
    intro r hr
    have hr' : r < m := hlen i ▸ hr
    have hrow := congrFun hbasis ⟨r, hr'⟩
    simpa [basis] using hrow
  rcases lt_or_gt_of_ne hne with hlt | hgt
  · exact ⟨i, j, hlt, heq⟩
  · exact ⟨j, i, hgt, heq.symm⟩

/-- A phase that makes as many pivots as there are bases comes back to a tableau. -/
theorem ends_or_returns (h : p.IsTableau rows) {s : Stage K} (ht : 0 ≤ s.tolerance)
    (hcosts : s.costs.length ≤ p.columns.length) {bases : ℕ}
    (hbases : bases = p.columns.length ^ rows.length) (made : ℕ) :
    (s.run bases made rows).ending ≠ .exhausted ∨ ∃ i j here,
      i < j ∧ j ≤ bases ∧ s.after rows i = some here ∧ s.after rows j = some here := by
  by_cases hend : (s.run bases made rows).ending = .exhausted
  · right
    obtain ⟨last, _, hlast, _⟩ := (Stage.exhausted_iff s bases made rows).mp hend
    subst hbases
    have hvisited (k : Fin (p.columns.length ^ rows.length + 1)) :
        ∃ here, s.after rows k = some here :=
      Stage.exists_after_of_le hlast (Nat.le_of_lt_succ k.isLt)
    choose visited hvisited using hvisited
    obtain ⟨i, j, hij, heq⟩ := exists_eq_of_many visited
      (fun k => (h.after ht hcosts (hvisited k)).1) fun k => (h.after ht hcosts (hvisited k)).2
    exact ⟨i, j, visited i, hij, Nat.le_of_lt_succ j.isLt, hvisited i, heq ▸ hvisited j⟩
  · exact .inl hend

end Problem.IsTableau
end LinProg
