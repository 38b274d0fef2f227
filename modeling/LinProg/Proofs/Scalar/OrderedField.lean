import LinProg.Scalar.Basic
import Mathlib.Algebra.Order.Field.Basic
import Mathlib.Algebra.BigOperators.Fin
import Mathlib.Tactic.Ring

/-!
# Exact numbers

The elements of an ordered field as scalars: every operation is exact and every number finite.
Statements that read the numbers exactly are about these scalars. Nothing is claimed of numbers
that round.
-/
namespace LinProg
variable {K : Type} [Field K] [LinearOrder K]

instance (priority := low) Scalar.ofOrderedField : Scalar K where
  decidableLT := inferInstance
  decidableLE := inferInstance
  toBEq := instBEqOfDecidableEq
  abs x := |x|
  isFinite _ := true
  belowTop _ := true
  ofDecimal digits places := digits / 10 ^ places

namespace Scalar

@[simp] theorem abs_exact (x : K) : Scalar.abs x = |x| := rfl

@[simp] theorem isFinite_exact (x : K) : Scalar.isFinite x = true := rfl

@[simp] theorem belowTop_exact (x : K) : Scalar.belowTop x = true := rfl

@[simp] theorem ofDecimal_exact (digits places : ℕ) :
    (Scalar.ofDecimal digits places : K) = digits / 10 ^ places := rfl

theorem sum_exact (xs : List K) : Scalar.sum xs = xs.sum := by
  have hfold (z : K) : xs.foldl (· + ·) z = z + xs.sum := by
    induction xs generalizing z with
    | nil => simp
    | cons x xs ih => simp only [List.foldl_cons, List.sum_cons, ih, add_assoc]
  exact (hfold (-0)).trans (by rw [neg_zero, zero_add])

/-- A sum over the entries of a list is a sum over its positions. -/
theorem sum_map_exact {A : Type} (xs : List A) (f : A → K) :
    Scalar.sum (xs.map f) = ∑ i : Fin xs.length, f xs[i] := by
  rw [sum_exact]
  exact (Fin.sum_univ_fun_getElem xs f).symm

/-- Entries past the end of a list count as zero, so any bound on its length will do. -/
theorem dot_exact {xs : List K} {n : ℕ} (hn : xs.length ≤ n) (ys : List K) :
    Scalar.dot xs ys = ∑ j ∈ Finset.range n, xs[j]?.getD 0 * ys[j]?.getD 0 := by
  rw [dot, sum_exact]
  induction xs generalizing ys n with
  | nil => simp
  | cons x xs ih =>
    obtain ⟨n, rfl⟩ : ∃ m, n = m + 1 := ⟨n - 1, by simp at hn; omega⟩
    rw [Finset.sum_range_succ']
    cases ys with
    | nil => simp
    | cons y ys =>
      rw [List.zipWith_cons_cons, List.sum_cons, ih (by simpa using hn) ys, add_comm]
      simp

theorem dot_map_neg (xs ys : List K) : Scalar.dot (xs.map (- ·)) ys = -Scalar.dot xs ys := by
  rw [dot_exact (List.length_map _).le, dot_exact le_rfl, ← Finset.sum_neg_distrib]
  refine Finset.sum_congr rfl fun j _ => ?_
  rw [List.getElem?_map, ← neg_mul]
  cases xs[j]? <;> simp

end Scalar
end LinProg
