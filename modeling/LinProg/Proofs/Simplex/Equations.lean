import LinProg.Proofs.Scalar.OrderedField
import LinProg.Proofs.Simplex.Shape
import Mathlib.Algebra.BigOperators.Field

/-!
# Tableaus as systems of equations

A row of a tableau is an equation over the values of the columns. A pivot on an entry that is not
zero exchanges the equations for others with the same solutions. Signs and tolerances play no part
here, so all of this holds of any pivot, wherever it is made.
-/
namespace LinProg
open Finset
variable {K : Type} [Field K] [LinearOrder K]

namespace Row

/-- The left-hand side of an equation over the first `n` columns. -/
def lhs (n : ℕ) (r : Row K) (y : ℕ → K) : K := ∑ j ∈ range n, r.entry j * y j

/-- The values of the columns satisfy the equation. -/
def Holds (n : ℕ) (r : Row K) (y : ℕ → K) : Prop := r.lhs n y = r.rhs

theorem lhs_add_mul (n : ℕ) (r : Row K) (y z : ℕ → K) (t : K) :
    r.lhs n (fun j => y j + t * z j) = r.lhs n y + t * r.lhs n z := by
  simp only [lhs, mul_add, sum_add_distrib, mul_sum, mul_left_comm]

@[simp] theorem solvedFor_rhs (r : Row K) (c : ℕ) : (r.solvedFor c).rhs = r.rhs / r.entry c := rfl

@[simp] theorem solvedFor_entry (r : Row K) (c j : ℕ) :
    (r.solvedFor c).entry j = r.entry j / r.entry c := by
  simp only [entry, solvedFor, List.getElem?_map]
  cases r.entries[j]? <;> simp

theorem eliminate_of_entry_eq_zero {r : Row K} {c : ℕ} (h : r.entry c = 0) (s : Row K) :
    r.eliminate s c = r := by
  simp [eliminate, h]

theorem eliminate_of_entry_ne_zero {r : Row K} {c : ℕ} (h : r.entry c ≠ 0) (s : Row K) :
    r.eliminate s c =
      { r with
        entries := List.zipWith (fun v p => v - r.entry c * p) r.entries s.entries
        rhs := r.rhs - r.entry c * s.rhs } := by
  simp [eliminate, h]

theorem eliminate_rhs (r s : Row K) (c : ℕ) :
    (r.eliminate s c).rhs = r.rhs - r.entry c * s.rhs := by
  by_cases h : r.entry c = 0
  · rw [eliminate_of_entry_eq_zero h, h, zero_mul, sub_zero]
  · rw [eliminate_of_entry_ne_zero h]

theorem eliminate_entry {r s : Row K} (h : r.entries.length = s.entries.length) (c j : ℕ) :
    (r.eliminate s c).entry j = r.entry j - r.entry c * s.entry j := by
  by_cases h0 : r.entry c = 0
  · rw [eliminate_of_entry_eq_zero h0, h0, zero_mul, sub_zero]
  · rw [eliminate_of_entry_ne_zero h0]
    rcases lt_or_ge j r.entries.length with hj | hj
    · have hs : j < s.entries.length := h ▸ hj
      simp [entry, hj, hs]
    · have hs : s.entries.length ≤ j := h ▸ hj
      simp [entry, hj, hs]

theorem solvedFor_lhs (n : ℕ) (r : Row K) (c : ℕ) (y : ℕ → K) :
    (r.solvedFor c).lhs n y = r.lhs n y / r.entry c := by
  simp only [lhs, solvedFor_entry, Finset.sum_div, div_mul_eq_mul_div]

theorem eliminate_lhs (n : ℕ) {r s : Row K} (h : r.entries.length = s.entries.length) (c : ℕ)
    (y : ℕ → K) : (r.eliminate s c).lhs n y = r.lhs n y - r.entry c * s.lhs n y := by
  simp only [lhs, eliminate_entry h, sub_mul, sum_sub_distrib, mul_sum, mul_assoc]

theorem solvedFor_holds_iff {n : ℕ} {r : Row K} {c : ℕ} (h : r.entry c ≠ 0) (y : ℕ → K) :
    (r.solvedFor c).Holds n y ↔ r.Holds n y := by
  rw [Holds, Holds, solvedFor_lhs, solvedFor_rhs, div_left_inj' h]

theorem eliminate_holds_iff {n : ℕ} {r s : Row K} (h : r.entries.length = s.entries.length)
    (c : ℕ) {y : ℕ → K} (hs : s.Holds n y) : (r.eliminate s c).Holds n y ↔ r.Holds n y := by
  rw [Holds, Holds, eliminate_lhs n h, eliminate_rhs, hs, sub_left_inj]

end Row

theorem getElem_pivot {rows : List (Row K)} {row : ℕ} (hrow : row < rows.length) (column : ℕ)
    {i : ℕ} (hi : i < (pivot rows row column).length) :
    (pivot rows row column)[i] =
      if i = row then rows[row].solvedFor column
      else (getElem rows i (by simpa using hi)).eliminate (rows[row].solvedFor column) column := by
  simp [pivot, hrow]

/-- The values of the columns satisfy every equation. -/
def Solves (n : ℕ) (rows : List (Row K)) (y : ℕ → K) : Prop := ∀ r ∈ rows, r.Holds n y

theorem solves_iff_getElem {n : ℕ} {rows : List (Row K)} {y : ℕ → K} :
    Solves n rows y ↔ ∀ i (h : i < rows.length), rows[i].Holds n y := List.forall_mem_iff_getElem

/-- Each row can be recovered from the solved one, so no solution is lost and none is gained. -/
theorem solves_pivot_iff {n : ℕ} {rows : List (Row K)} {row column : ℕ}
    (hrow : row < rows.length) (hwidth : ∀ r ∈ rows, r.entries.length = n)
    (h : rows[row].entry column ≠ 0) (y : ℕ → K) :
    Solves n (pivot rows row column) y ↔ Solves n rows y := by
  have hlen (i : ℕ) (hi : i < rows.length) :
      rows[i].entries.length = (rows[row].solvedFor column).entries.length := by
    rw [Row.length_solvedFor, hwidth _ (List.getElem_mem hi), hwidth _ (List.getElem_mem hrow)]
  have hpivot (hs : (rows[row].solvedFor column).Holds n y) (i : ℕ) (hi : i < rows.length) :
      (getElem (pivot rows row column) i (by simpa using hi)).Holds n y ↔ rows[i].Holds n y := by
    rw [getElem_pivot hrow]
    split_ifs with hir
    · subst hir
      exact Row.solvedFor_holds_iff h y
    · exact Row.eliminate_holds_iff (hlen i hi) column hs
  rw [solves_iff_getElem, solves_iff_getElem]
  constructor
  · intro hall i hi
    have hs := hall row (by simpa using hrow)
    rw [getElem_pivot hrow, if_pos rfl] at hs
    exact (hpivot hs i hi).mp (hall i (by simpa using hi))
  · intro hall i hi
    have hs := (Row.solvedFor_holds_iff h y).mpr (hall row hrow)
    exact (hpivot hs i (by simpa using hi)).mpr (hall i (by simpa using hi))

end LinProg
