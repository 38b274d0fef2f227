import LinProg.Proofs.Problem.Checking
import LinProg.Proofs.Scalar.Rational
import LinProg.Proofs.Simplex.Cycling
import LinProg.Proofs.Solver.Answers

/-!
# When a larger limit helps

The simplex method takes the first column with the largest reduced cost and the first row with the
least ratio. On some problems these rules lead back to a tableau; on all others a limit of twice the
number of bases is never met.
-/
namespace LinProg

/-- No check of a problem blames a limit. -/
theorem Problem.validate_ne_limit {K : Type} [Scalar K] (p : Problem K) (n : ℕ) :
    p.validate ≠ .error (.iterationLimit n) := by
  intro h
  have hstatus := status_of_fault? (validate_eq_error_iff.mp h)
  cases hstatus

namespace Solver
variable {K : Type} [Field K] [LinearOrder K] [IsStrictOrderedRing K] [Printable K]

/-- Either no limit from twice the number of bases on is met, or every limit is met, because a phase
comes back to a tableau without any progress in between or with a negative right-hand side. -/
theorem solveSimplex_ends_or_cycles (p : Problem K) :
    (∀ cap ≥ 2 * (p.bases + 1), ∀ n,
        ({ default with maxIterations := cap } : Solver K).solveSimplex p ≠
          .error (.iterationLimit n)) ∨
      (∀ cap, ({ default with maxIterations := cap } : Solver K).solveSimplex p =
          .error (.iterationLimit cap)) ∧
        Cycles (p.simplex (default.limits (2 * (p.bases + 1)))).trace := by
  cases hp : p.validate with
  | error e =>
    left
    intro cap _ n heq
    rw [solveSimplex, hp] at heq
    cases heq
    exact p.validate_ne_limit n hp
  | ok _ =>
    have ht : (0 : K) ≤ default.tolerance := by
      simp only [default, Scalar.ofDecimal_exact]
      positivity
    rcases p.endsOrCycles ht default.feasibilityTolerance with hends | ⟨hlimit, hcycles⟩
    · left
      intro cap hcap n
      rw [solveSimplex_eq hp, ne_eq, present_eq_error]
      exact hends cap hcap n
    · right
      refine ⟨fun cap => ?_, hcycles⟩
      rw [solveSimplex_eq hp, present_eq_error]
      exact hlimit cap

/-- The first two rows are degenerate, and the pivots on them lead back to the first tableau after
six steps. The optimum is at `(1, 0, 1, 0)`. -/
def sixPivots : Problem ℚ where
  names := ["x1", "x2", "x3", "x4"]
  objective := ⟨[10, -57, -9, -24], .max⟩
  constraints :=
    [⟨"c1", [1 / 2, -11 / 2, -5 / 2, 9], .le, 0⟩, ⟨"c2", [1 / 2, -3 / 2, -1 / 2, 1], .le, 0⟩,
      ⟨"c3", [1, 0, 0, 0], .le, 1⟩]
  toggles := .none

theorem validate_sixPivots : sixPivots.validate = .ok () := by decide +kernel

theorem solveSimplex_sixPivots (cap : ℕ) :
    ({ default with maxIterations := cap } : Solver ℚ).solveSimplex sixPivots =
      .error (.iterationLimit cap) := by
  have hart : sixPivots.artificialColumns.isEmpty = true := by decide +kernel
  have hreturns : (sixPivots.stageTwo (default.limits 0)).after sixPivots.initialRows 6 =
      some sixPivots.initialRows := by decide +kernel
  have hexhausted := Stage.exhausted_of_returns (i := 0) (by decide) rfl hreturns cap 0
  rw [solveSimplex_eq validate_sixPivots, present_eq_error, Problem.simplex_of_isEmpty hart]
  exact Problem.outcomeOf_of_exhausted hexhausted

theorem solveSimplex_sixPivots_never_ends : sixPivots.validate = .ok () ∧
    ¬ ∃ N, ∀ cap ≥ N, ∀ n,
      ({ default with maxIterations := cap } : Solver ℚ).solveSimplex sixPivots ≠
        .error (.iterationLimit n) :=
  ⟨validate_sixPivots, fun ⟨N, h⟩ => h N le_rfl N (solveSimplex_sixPivots N)⟩

theorem solveSimplex_ends_or_cycles_sixPivots :
    Cycles (sixPivots.simplex (default.limits (2 * (sixPivots.bases + 1)))).trace :=
  ((solveSimplex_ends_or_cycles sixPivots).resolve_left fun h =>
    h _ le_rfl _ (solveSimplex_sixPivots _)).2

end Solver
end LinProg
