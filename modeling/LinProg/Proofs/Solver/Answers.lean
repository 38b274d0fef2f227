import LinProg.Proofs.Plane.Decision
import LinProg.Proofs.Simplex.Violation

/-!
# How far an answer misses its problem

An answer of the graphical method misses the problem by no more than the tolerance of the method.
Nothing of the kind holds of the simplex method: how far its answer misses the problem is what the
right-hand sides of its last tableau show, and no tolerance bounds these.
-/
namespace LinProg
variable {K : Type}

namespace Solver

section
variable [Scalar K] [Printable K]

/-- The number of pivots that a method is allowed. -/
def pivots (s : Solver K) : Method → ℕ
  | .general => s.generalIterations
  | _ => s.maxIterations

/-- The run of the simplex method that an answer to a problem is read off. -/
def runOf (s : Solver K) (p : Problem K) (asked : Method) : Run K :=
  p.normalized.simplex (s.limits (s.pivots (Method.route p.normalized asked)))

theorem present_eq_ok {m : Method} {p : Problem K} {run : Run K} {answer : Solution K} :
    present m p run = .ok answer ↔ ∃ best, run.outcome = .ok best ∧
      .optimal m best.coordinates best.value (Simplex.listing p (m == .general) run.trace) =
        answer := by
  rw [present]
  cases run.outcome <;> simp [Except.map]

theorem present_eq_error {m : Method} {p : Problem K} {run : Run K} {e : Failure} :
    present m p run = .error e ↔ run.outcome = .error e := by
  rw [present]
  cases run.outcome <;> simp [Except.map]

theorem solveSimplex_eq {p : Problem K} (hp : p.validate = .ok ()) (s : Solver K) :
    s.solveSimplex p = present .simplex p (p.simplex (s.limits s.maxIterations)) := by
  rw [solveSimplex, hp]
  rfl

variable [Polar K]

/-- Both simplex methods are the same run, presented in their own ways. -/
theorem solveBy_of_ne_graphical (s : Solver K) (p : Problem K) {m : Method}
    (hm : m ≠ .graphical) : s.solveBy p m = (do
      p.validate
      present m p (p.simplex (s.limits (s.pivots m)))) := by
  cases m with
  | graphical => exact absurd rfl hm
  | simplex => rfl
  | general => rfl

theorem status_ne_optimal (e : Failure) : e.status ≠ .optimal := by
  cases e <;> exact Status.noConfusion

/-- A solution that shows an optimum is the answer of the method that the problem goes to. -/
theorem solveBy_of_optimal {s : Solver K} {p : Problem K} {asked : Method}
    (h : (s.solve p asked).status = .optimal) :
    s.solveBy p.normalized (Method.route p.normalized asked) = .ok (s.solve p asked) := by
  rw [solve] at h ⊢
  cases hfault : p.fault? with
  | some fault =>
    rw [hfault] at h
    exact absurd h (status_ne_optimal fault)
  | none =>
    rw [hfault] at h
    cases hanswer : s.solveBy p.normalized (Method.route p.normalized asked) with
    | error e =>
      simp only [hanswer] at h
      exact absurd h (status_ne_optimal e)
    | ok answer => simp only [hanswer]

omit [Printable K] [Polar K] in
theorem of_validate_bind {A : Type} {p : Problem K} {k : Except Failure A} {a : A}
    (h : (do p.validate; k) = .ok a) : p.validate = .ok () ∧ k = .ok a := by
  cases hv : p.validate with
  | error e =>
    rw [hv] at h
    cases h
  | ok u =>
    rw [hv] at h
    exact ⟨rfl, h⟩

end

variable [Field K] [LinearOrder K] [IsStrictOrderedRing K] [Polar K] [Printable K]

/-- The vertex that the graphical method returns passed the test for vertices. -/
theorem satisfiedBy_of_solveGraphical {s : Solver K} {p : Problem K} {answer : Solution K}
    (h : s.solveGraphical p = .ok answer) :
    p.satisfiedBy answer.coordinates s.feasibilityTolerance = true := by
  obtain ⟨hp, _⟩ := of_validate_bind h
  rw [Problem.solveGraphical_eq hp] at h
  cases hbest : p.bestVertex s.feasibilityTolerance with
  | error e =>
    rw [hbest] at h
    cases h
  | ok best =>
    rw [hbest] at h
    obtain ⟨hsize, hmem⟩ := Problem.mem_of_bestVertex hbest
    rw [← Except.ok.inj h]
    exact (Problem.satisfiedBy_toList hp hsize best _).trans (List.mem_filter.mp hmem).2

/-- What the last tableau of the run shows is what the answer of the simplex method misses. -/
theorem satisfiedBy_iff_last_tableau {s : Solver K} (hs : 0 ≤ s.tolerance) {p : Problem K}
    {m : Method} (hm : m ≠ .graphical) {answer : Solution K} (h : s.solveBy p m = .ok answer)
    {t : K} (ht : 0 ≤ t) : p.satisfiedBy answer.coordinates t = true ↔
      ∃ last ∈ (p.simplex (s.limits (s.pivots m))).trace.getLast?,
        ∀ r ∈ last.rows, ∀ c ∈ p.columns[r.basic]?, p.Admits t r.rhs c := by
  rw [solveBy_of_ne_graphical s p hm] at h
  obtain ⟨hp, h⟩ := of_validate_bind h
  obtain ⟨best, hbest, hanswer⟩ := present_eq_ok.mp h
  obtain ⟨last, hlast, htableau, hopt⟩ :=
    Problem.exists_tableau_of_ok (s.limits (s.pivots m)) hs hbest
  rw [← hanswer, ← hopt, hlast]
  exact (htableau.satisfiedBy_iff_rows hp ht).trans (by simp)

/-- An optimum of the default solver satisfies the problem up to a millionth exactly when it comes
from the graphical method or no right-hand side of the last tableau goes wrong by more. -/
theorem solve_optimal_satisfies_iff (p : Problem K) (asked : Method)
    (h : ((default : Solver K).solve p asked).status = .optimal) :
    p.normalized.satisfiedBy (default.solve p asked).coordinates (1 / 10 ^ 6) = true ↔
      p.size = 2 ∨ ∃ last ∈ ((default : Solver K).runOf p asked).trace.getLast?,
        ∀ r ∈ last.rows, ∀ c ∈ p.normalized.columns[r.basic]?,
          p.normalized.Admits (1 / 10 ^ 6) r.rhs c := by
  have hanswer := solveBy_of_optimal h
  by_cases hsize : p.size = 2
  · refine iff_of_true ?_ (.inl hsize)
    have hroute : Method.route p.normalized asked = .graphical :=
      Method.route_eq_graphical_iff.mpr ((Problem.size_normalized p).trans hsize)
    rw [hroute] at hanswer
    refine Problem.satisfiedBy_mono ?_ (satisfiedBy_of_solveGraphical hanswer)
    rw [default, Scalar.ofDecimal_exact]
    norm_num
  · rw [or_iff_right hsize]
    have hroute : Method.route p.normalized asked ≠ .graphical := fun hroute =>
      hsize ((Problem.size_normalized p).symm.trans (Method.route_eq_graphical_iff.mp hroute))
    refine satisfiedBy_iff_last_tableau ?_ hroute hanswer (by positivity)
    rw [default, Scalar.ofDecimal_exact]
    positivity

/-- Three products that share three resources. -/
def threeProducts : Problem ℚ where
  names := ["x1", "x2", "x3"]
  objective := ⟨[3, 5, 4], .max⟩
  constraints := [⟨"c1", [2, 3, 0], .le, 8⟩, ⟨"c2", [0, 2, 5], .le, 10⟩, ⟨"c3", [3, 2, 4], .le, 15⟩]
  toggles := .none

theorem solve_optimal_satisfies_iff_threeProducts :
    (default.solve threeProducts .general).status = .optimal ∧
      ∃ last ∈ (default.runOf threeProducts .general).trace.getLast?,
        ∀ r ∈ last.rows, ∀ c ∈ threeProducts.normalized.columns[r.basic]?,
          threeProducts.normalized.Admits (1 / 10 ^ 6) r.rhs c :=
  ⟨by decide +kernel, ((solve_optimal_satisfies_iff threeProducts .general
    (by decide +kernel)).mp (by decide +kernel)).resolve_left (by decide)⟩

/-- A lower bound on a variable that a row with a small coefficient rules out. -/
def faintRow : Problem ℚ where
  names := ["x1", "x2", "x3"]
  objective := ⟨[1, 1, 1], .min⟩
  constraints := [⟨"c1", [1 / 2 ^ 34, 0, 0], .le, 1⟩, ⟨"c2", [1, 0, 0], .ge, 2 ^ 38⟩]
  toggles := .none

/-- The small coefficient never counts as an entry, so its row does not stop the variable. -/
theorem solve_faintRow_misses : (default.solve faintRow .simplex).status = .optimal ∧
    (default.solve faintRow .simplex).coordinates = [2 ^ 38, 0, 0] ∧
      faintRow.normalized.satisfiedBy (default.solve faintRow .simplex).coordinates
        (1 / 10 ^ 6) = false := by decide +kernel

end Solver
end LinProg
