import LinProg.Proofs.Simplex.Equations
import Mathlib.Algebra.Order.BigOperators.Group.Finset
import Mathlib.Tactic.Linarith

/-!
# Tableaus solved for their basic columns

In a canonical tableau the basic columns form a unit matrix, so the basic solution can be read off
the right-hand sides and the reduced costs price every solution. Pivots keep a tableau canonical.
Nothing here asks the right-hand sides to be non-negative.
-/
namespace LinProg
open Finset
variable {K : Type} [Field K] [LinearOrder K]

/-- Each equation is solved for its basic column. -/
structure Canonical (n : ℕ) (rows : List (Row K)) : Prop where
  width : ∀ r ∈ rows, r.entries.length = n
  basic_lt : ∀ r ∈ rows, r.basic < n
  unit : ∀ i (hi : i < rows.length) k (hk : k < rows.length),
    rows[i].entry rows[k].basic = if i = k then 1 else 0

/-- The values of the columns when those that are not basic are zero. -/
def basicSolution (rows : List (Row K)) (j : ℕ) : K :=
  ∑ i : Fin rows.length, if rows[i].basic = j then rows[i].rhs else 0

omit [LinearOrder K] in
theorem basicSolution_eq_sum (rows : List (Row K)) (j : ℕ) :
    basicSolution rows j = (rows.map fun r => if r.basic = j then r.rhs else 0).sum :=
  Fin.sum_univ_fun_getElem rows fun r => if r.basic = j then r.rhs else 0

/-- How the basic solution changes with each unit by which a column grows. -/
def edge (rows : List (Row K)) (column j : ℕ) : K :=
  (if j = column then 1 else 0) -
    ∑ i : Fin rows.length, if rows[i].basic = j then rows[i].entry column else 0

/-- The cost of the values of the first `n` columns. -/
def totalCost (n : ℕ) (costs : List K) (y : ℕ → K) : K :=
  ∑ j ∈ range n, costs[j]?.getD 0 * y j

/-- The cost of a column less what the basis earns in its place. -/
def reducedCost (costs : List K) (rows : List (Row K)) (j : ℕ) : K :=
  costs[j]?.getD 0 - ∑ i : Fin rows.length, rows[i].basicCost costs * rows[i].entry j

theorem reducedCosts_getElem? {costs : List K} {j : ℕ} (hj : j < costs.length)
    (rows : List (Row K)) : (reducedCosts costs rows)[j]? = some (reducedCost costs rows j) := by
  simp [reducedCosts, reducedCost, Scalar.sum_map_exact, hj]

theorem basicValue_eq (costs : List K) (rows : List (Row K)) :
    basicValue costs rows = ∑ i : Fin rows.length, rows[i].basicCost costs * rows[i].rhs :=
  Scalar.sum_map_exact rows _

namespace Canonical
variable {n : ℕ} {rows : List (Row K)}

theorem basic_inj (h : Canonical n rows) {i k : ℕ} (hi : i < rows.length) (hk : k < rows.length)
    (hb : rows[i].basic = rows[k].basic) : i = k := by
  by_contra hne
  have hii := h.unit i hi i hi
  rw [hb, h.unit i hi k hk, if_neg hne, if_pos rfl] at hii
  exact zero_ne_one hii

theorem pivot (h : Canonical n rows) {row column : ℕ} (hrow : row < rows.length)
    (hcolumn : column < n) (hentry : rows[row].entry column ≠ 0) :
    Canonical n (pivot rows row column) := by
  have hlen (i : ℕ) (hi : i < rows.length) :
      rows[i].entries.length = (rows[row].solvedFor column).entries.length := by
    rw [Row.length_solvedFor, h.width _ (List.getElem_mem hi), h.width _ (List.getElem_mem hrow)]
  refine ⟨?_, ?_, ?_⟩
  · intro r hr
    obtain ⟨i, hi, rfl⟩ := List.getElem_of_mem hr
    have hi' : i < rows.length := by simpa using hi
    rw [getElem_pivot hrow]
    split_ifs
    · rw [Row.length_solvedFor, h.width _ (List.getElem_mem hrow)]
    · rw [Row.length_eliminate (hlen i hi'), h.width _ (List.getElem_mem hi')]
  · intro r hr
    obtain ⟨i, hi, rfl⟩ := List.getElem_of_mem hr
    have hi' : i < rows.length := by simpa using hi
    rw [getElem_pivot hrow]
    split_ifs
    · exact hcolumn
    · rw [Row.eliminate_basic]
      exact h.basic_lt _ (List.getElem_mem hi')
  · intro i hi k hk
    have hi' : i < rows.length := by simpa using hi
    have hk' : k < rows.length := by simpa using hk
    simp only [getElem_pivot hrow]
    by_cases hir : i = row <;> by_cases hkr : k = row
    · subst hir hkr
      simp [div_self hentry]
    · subst hir
      simp [hkr, h.unit i hi' k hk', Ne.symm hkr]
    · subst hkr
      simp [hir, Row.eliminate_entry (hlen i hi'), div_self hentry]
    · simp [hir, hkr, Row.eliminate_entry (hlen i hi'), h.unit i hi' k hk', h.unit row hrow k hk',
        Ne.symm hkr]

/-- A sum over the columns of terms that only basic columns have is a sum over the rows. -/
theorem sum_basic (h : Canonical n rows) (f : ℕ → K) (g : Fin rows.length → K) :
    ∑ j ∈ range n, f j * ∑ i, (if rows[i].basic = j then g i else 0) =
      ∑ i, f rows[i].basic * g i := by
  simp only [mul_sum, mul_ite, mul_zero]
  rw [sum_comm]
  refine sum_congr rfl fun i _ => ?_
  rw [sum_ite_eq]
  exact if_pos (mem_range.mpr (h.basic_lt _ (List.getElem_mem i.isLt)))

theorem basicSolution_basic (h : Canonical n rows) {k : ℕ} (hk : k < rows.length) :
    basicSolution rows rows[k].basic = rows[k].rhs := by
  rw [basicSolution, sum_eq_single (⟨k, hk⟩ : Fin rows.length)]
  · simp
  · intro i _ hne
    refine if_neg fun hb => hne (Fin.ext (h.basic_inj i.isLt hk hb))
  · simp

theorem sum_unit (h : Canonical n rows) {k : ℕ} (hk : k < rows.length)
    (g : Fin rows.length → K) : ∑ i, rows[k].entry rows[i].basic * g i = g ⟨k, hk⟩ := by
  rw [sum_eq_single (⟨k, hk⟩ : Fin rows.length)]
  · simp [h.unit k hk k hk]
  · intro i _ hne
    have hki : k ≠ i := fun hki => hne (Fin.ext hki.symm)
    simp [h.unit k hk i i.isLt, hki]
  · simp

theorem basicSolution_solves (h : Canonical n rows) : Solves n rows (basicSolution rows) := by
  rw [solves_iff_getElem]
  intro k hk
  rw [Row.Holds, Row.lhs]
  simp only [basicSolution]
  rw [h.sum_basic, h.sum_unit hk fun i => rows[i].rhs]
  rfl

/-- Along an edge both sides of every equation stay as they are. -/
theorem lhs_edge (h : Canonical n rows) {column : ℕ} (hcolumn : column < n) {r : Row K}
    (hr : r ∈ rows) : r.lhs n (edge rows column) = 0 := by
  obtain ⟨k, hk, rfl⟩ := List.getElem_of_mem hr
  simp only [Row.lhs, edge, mul_sub, sum_sub_distrib]
  rw [h.sum_basic, h.sum_unit hk fun i => rows[i].entry column]
  simp [hcolumn]

/-- Moving along an edge leads from solutions to solutions. -/
theorem add_edge_solves (h : Canonical n rows) {column : ℕ} (hcolumn : column < n) {y : ℕ → K}
    (hy : Solves n rows y) (t : K) : Solves n rows (fun j => y j + t * edge rows column j) := by
  intro r hr
  rw [Row.Holds, Row.lhs_add_mul, h.lhs_edge hcolumn hr, mul_zero, add_zero]
  exact hy r hr

/-- The reduced costs price every solution against the basic one. -/
theorem totalCost_eq (costs : List K) {y : ℕ → K} (hy : Solves n rows y) :
    totalCost n costs y =
      basicValue costs rows + ∑ j ∈ range n, reducedCost costs rows j * y j := by
  have hrows : ∑ j ∈ range n, (∑ i : Fin rows.length,
      rows[i].basicCost costs * rows[i].entry j) * y j = basicValue costs rows := by
    simp only [basicValue_eq, sum_mul]
    rw [sum_comm]
    refine sum_congr rfl fun i _ => ?_
    rw [← hy rows[i] (List.getElem_mem i.isLt), Row.lhs, mul_sum]
    exact sum_congr rfl fun j _ => mul_assoc _ _ _
  simp only [reducedCost, sub_mul, sum_sub_distrib, hrows, totalCost]
  ring

theorem totalCost_basicSolution (h : Canonical n rows) (costs : List K) :
    totalCost n costs (basicSolution rows) = basicValue costs rows := by
  simp only [totalCost, basicSolution]
  rw [h.sum_basic, basicValue_eq]
  rfl

theorem totalCost_edge (h : Canonical n rows) (costs : List K) {column : ℕ}
    (hcolumn : column < n) :
    totalCost n costs (edge rows column) = reducedCost costs rows column := by
  simp only [totalCost, edge, mul_sub, sum_sub_distrib]
  rw [h.sum_basic, reducedCost]
  simp [hcolumn, Row.basicCost]

/-- No column that a row is solved for pays. -/
theorem reducedCost_basic (h : Canonical n rows) (costs : List K) {k : ℕ} (hk : k < rows.length) :
    reducedCost costs rows rows[k].basic = 0 := by
  rw [reducedCost, sum_eq_single (⟨k, hk⟩ : Fin rows.length)]
  · simp [h.unit k hk k hk, Row.basicCost]
  · intro i _ hne
    have hik : (i : ℕ) ≠ k := fun hik => hne (Fin.ext hik)
    simp [h.unit i i.isLt k hk, hik]
  · simp

end Canonical

omit [LinearOrder K] in
/-- A column that no row is solved for has the value zero. -/
theorem basicSolution_of_not_basic {rows : List (Row K)} {j : ℕ} (h : ∀ r ∈ rows, r.basic ≠ j) :
    basicSolution rows j = 0 :=
  sum_eq_zero fun i _ => if_neg (h _ (List.getElem_mem i.isLt))

variable [IsStrictOrderedRing K]

theorem basicSolution_nonneg {rows : List (Row K)} (h : ∀ r ∈ rows, 0 ≤ r.rhs) (j : ℕ) :
    0 ≤ basicSolution rows j := by
  refine sum_nonneg fun i _ => ?_
  split_ifs
  · exact h _ (List.getElem_mem i.isLt)
  · exact le_rfl

/-- A column that appears in no equation with a positive sign can grow for ever. -/
theorem edge_nonneg {rows : List (Row K)} {column : ℕ} (h : ∀ r ∈ rows, r.entry column ≤ 0)
    (j : ℕ) : 0 ≤ edge rows column j := by
  have hsum :
      (∑ i : Fin rows.length, if rows[i].basic = j then rows[i].entry column else 0) ≤ 0 := by
    refine sum_nonpos fun i _ => ?_
    split_ifs
    · exact h _ (List.getElem_mem i.isLt)
    · exact le_rfl
  have hown : (0 : K) ≤ if j = column then 1 else 0 := by split_ifs <;> simp
  rw [edge]
  linarith

end LinProg
