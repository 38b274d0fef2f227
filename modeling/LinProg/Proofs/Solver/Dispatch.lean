import LinProg.CommandLine.Run
import LinProg.Proofs.Problem.Checking
import LinProg.Proofs.Scalar.Rational
import LinProg.Proofs.Solver.Answers

/-!
# One answer to every problem

A problem that is at fault is invalid input, and the command that checks problems refuses it. Any
other has the answer of the method that it goes to, applied to its normal form. A failure of the
method is reported by its status, and none of these failures is a fault of the problem. Of the
numbers it is assumed only that a magnitude with a minus sign is finite exactly if the number is.
-/
namespace LinProg
variable {K : Type} [Scalar K]

theorem Problem.bestVertex_error_cases [Polar K] {p : Problem K} (hsize : p.size = 2) {t : K}
    {e : Failure} (h : p.bestVertex t = .error e) : e = .infeasible ∨ e = .unbounded := by
  rw [bestVertex, if_neg (not_not_intro hsize)] at h
  split at h
  · cases h
    exact .inl rfl
  · split_ifs at h
    cases h
    exact .inr rfl

theorem Problem.isSome_fault?_eq_false_iff {p : Problem K} :
    p.fault?.isSome = false ↔ p.validate = .ok () := by
  rw [Option.isSome_eq_false_iff, Option.isNone_iff_eq_none, validate_eq_ok]

/-- The command that checks problems accepts those without faults. -/
theorem CommandLine.exitCode_checkOutput_eq_zero_iff {p : Problem K} :
    (checkOutput p).exitCode = 0 ↔ p.validate = .ok () := by
  rw [Problem.validate_eq_ok, checkOutput]
  cases p.fault? with
  | none => exact iff_of_true rfl rfl
  | some e => exact iff_of_false Nat.one_ne_zero (Option.some_ne_none e)

namespace Solver
variable [Printable K] [Polar K]

/-- What a method says of a problem that is no fault of the problem. -/
def Fails (s : Solver K) (m : Method) (e : Failure) : Prop :=
  e = .infeasible ∨ e = .unbounded ∨ e = .iterationLimit (s.pivots m)

omit [Scalar K] [Printable K] [Polar K] in
theorem Fails.status_ne {s : Solver K} {m : Method} {e : Failure} (h : s.Fails m e) :
    e.status ≠ .invalidInput := by
  rcases h with rfl | rfl | rfl <;> exact Status.noConfusion

/-- A method that is given a problem without faults, in the plane if it is the graphical one, fails
for no fault of the problem. -/
theorem fails_of_solveBy {s : Solver K} {p : Problem K} {m : Method} {e : Failure}
    (hp : p.validate = .ok ()) (hsize : m = .graphical → p.size = 2)
    (h : s.solveBy p m = .error e) : s.Fails m e := by
  by_cases hm : m = .graphical
  · subst hm
    rw [solveBy, solveGraphical, hp] at h
    cases hbest : p.bestVertex s.feasibilityTolerance with
    | ok best =>
      rw [hbest] at h
      cases h
    | error failure =>
      rw [hbest] at h
      cases h
      exact (Problem.bestVertex_error_cases (hsize rfl) hbest).imp_right .inl
  · rw [solveBy_of_ne_graphical s p hm, hp] at h
    exact Problem.simplex_error_cases (present_eq_error.mp h)

theorem status_of_solveBy {s : Solver K} {p : Problem K} {m : Method} {answer : Solution K}
    (h : s.solveBy p m = .ok answer) : answer.status = .optimal := by
  by_cases hm : m = .graphical
  · subst hm
    obtain ⟨_, h⟩ := of_validate_bind h
    cases hbest : p.bestVertex s.feasibilityTolerance with
    | ok best =>
      rw [hbest] at h
      cases h
      rfl
    | error failure =>
      rw [hbest] at h
      cases h
  · rw [solveBy_of_ne_graphical s p hm] at h
    obtain ⟨best, _, rfl⟩ := present_eq_ok.mp (of_validate_bind h).2
    rfl

/-- A result of a method is what a solution reports. -/
inductive Reports (s : Solver K) (m : Method) :
    Except Failure (Solution K) → Solution K → Prop
  | answer {a : Solution K} : a.status = .optimal → Reports s m (.ok a) a
  | failure {e : Failure} : s.Fails m e → Reports s m (.error e) (.failed e.status (some m))

omit [Polar K] [Printable K] in
theorem Reports.status_ne {s : Solver K} {m : Method} {x : Except Failure (Solution K)}
    {a : Solution K} (h : s.Reports m x a) : a.status ≠ .invalidInput := by
  cases h with
  | answer ha =>
    rw [ha]
    exact Status.noConfusion
  | failure he => exact he.status_ne

theorem solve_of_fault {p : Problem K} (hp : p.validate ≠ .ok ()) (s : Solver K)
    (asked : Method) : s.solve p asked = .failed .invalidInput none := by
  have hsome : p.fault?.isSome = true := by
    rwa [← Bool.not_eq_false, Problem.isSome_fault?_eq_false_iff]
  obtain ⟨e, he⟩ := Option.isSome_iff_exists.mp hsome
  rw [solve, he]
  simp only [Problem.status_of_fault? he]

section
variable (hfinite : ∀ c : K, Scalar.isFinite (-Scalar.abs c) = Scalar.isFinite c)
include hfinite

omit [Printable K] [Polar K] in
theorem validate_normalized_iff {p : Problem K} :
    p.normalized.validate = .ok () ↔ p.validate = .ok () := by
  rw [← Problem.isSome_fault?_eq_false_iff, ← Problem.isSome_fault?_eq_false_iff,
    p.isSome_fault?_normalized hfinite]

/-- Normalising once more changes nothing. -/
theorem solve_normalized (s : Solver K) (p : Problem K) (asked : Method) :
    s.solve p.normalized asked = s.solve p asked := by
  by_cases hp : p.validate = .ok ()
  · have hnormalized := (validate_normalized_iff hfinite).mpr hp
    rw [solve, solve, Problem.validate_eq_ok.mp hp, Problem.validate_eq_ok.mp hnormalized,
      Problem.normalized_normalized]
  · rw [solve_of_fault hp, solve_of_fault (mt (validate_normalized_iff hfinite).mp hp)]

/-- What is reported of a problem without faults is the result of its method. -/
theorem reports_solve {p : Problem K} (hp : p.validate = .ok ()) (s : Solver K)
    (asked : Method) {m : Method} (hm : Method.route p.normalized asked = m) :
    s.Reports m (s.solveBy p.normalized m) (s.solve p asked) := by
  have hsize (h : m = .graphical) : p.normalized.size = 2 :=
    Method.route_eq_graphical_iff.mp (hm.trans h)
  have hnormalized := (validate_normalized_iff hfinite).mpr hp
  rw [solve, Problem.validate_eq_ok.mp hp]
  dsimp only
  rw [hm]
  cases hresult : s.solveBy p.normalized m with
  | ok answer => exact .answer (status_of_solveBy hresult)
  | error e => exact .failure (fails_of_solveBy hnormalized hsize hresult)

theorem status_solve_eq_invalidInput_iff {s : Solver K} {p : Problem K} {asked : Method} :
    (s.solve p asked).status = .invalidInput ↔ p.validate ≠ .ok () := by
  constructor
  · intro h hp
    exact (reports_solve hfinite hp s asked rfl).status_ne h
  · intro hp
    rw [solve_of_fault hp]
    rfl

/-- Toggles are applied once, problems are checked once, and each problem without faults has the
answer of its method, or of the failure of its method. The graphical method gets the problems in two
variables, and the general one gets those among the others that it is asked for. -/
theorem solve_dispatches (s : Solver K) (p : Problem K) (asked : Method) :
    let m := Method.route p.normalized asked
    (m = .graphical ↔ p.size = 2) ∧ (m = .general ↔ p.size ≠ 2 ∧ asked = .general) ∧
      s.solve p asked = s.solve p.normalized asked ∧
      ((s.solve p asked).status = .invalidInput ↔ p.validate ≠ .ok ()) ∧
      ((CommandLine.checkOutput p).exitCode = 0 ↔ (s.solve p asked).status ≠ .invalidInput) ∧
      (p.validate ≠ .ok () → (s.solve p asked).method = none) ∧
      (p.validate = .ok () →
        (m = .graphical →
          s.Reports .graphical (s.solveGraphical p.normalized) (s.solve p asked)) ∧
        (m = .simplex → s.Reports .simplex (s.solveSimplex p.normalized) (s.solve p asked)) ∧
        (m = .general → s.Reports .general (s.solveGeneral p.normalized) (s.solve p asked))) := by
  intro m
  have hgraphical : m = .graphical ↔ p.size = 2 :=
    p.size_normalized ▸ Method.route_eq_graphical_iff
  have hgeneral : m = .general ↔ p.size ≠ 2 ∧ asked = .general :=
    p.size_normalized ▸ Method.route_eq_general_iff
  have hstatus : (s.solve p asked).status = .invalidInput ↔ p.validate ≠ .ok () :=
    status_solve_eq_invalidInput_iff hfinite
  have hcheck : (CommandLine.checkOutput p).exitCode = 0 ↔
      (s.solve p asked).status ≠ .invalidInput := by
    rw [CommandLine.exitCode_checkOutput_eq_zero_iff, ne_eq, hstatus, not_not]
  refine ⟨hgraphical, hgeneral, (solve_normalized hfinite s p asked).symm, hstatus, hcheck,
    fun hp => ?_, fun hp => ?_⟩
  · rw [solve_of_fault hp]
    rfl
  · exact ⟨reports_solve hfinite hp s asked, reports_solve hfinite hp s asked,
      reports_solve hfinite hp s asked⟩

end

/-- Three products of which a form sets the signs of the objective and of the last two rows. -/
def toggledProducts : Problem ℚ where
  names := ["x1", "x2", "x3"]
  objective := ⟨[3, 5, -4], .max⟩
  constraints :=
    [⟨"c1", [2, 3, 0], .le, 8⟩, ⟨"c2", [1, 2, -1], .ge, -6⟩, ⟨"c3", [3, 2, 4], .le, 15⟩]
  toggles := ⟨some .minus, some [.plus, .minus, .minus]⟩

/-- The same products with a row that is too short. -/
def raggedProducts : Problem ℚ :=
  toggledProducts.addConstraint ⟨"c4", [1], .le, 2⟩

/-- Two fields of which a form sets the signs of the objective and of the last row. -/
def toggledFields : Problem ℚ where
  names := ["x1", "x2"]
  objective := ⟨[3, -2], .max⟩
  constraints := [⟨"c1", [4, 3], .le, 24⟩, ⟨"c2", [3, 4], .le, 24⟩]
  toggles := ⟨some .plus, some [.plus, .minus]⟩

/-- Each of the three methods gets a problem, and none gets the ragged one. -/
theorem solve_dispatches_toggledProducts :
    (∀ c : ℚ, Scalar.isFinite (-Scalar.abs c) = Scalar.isFinite c) ∧
      toggledProducts.normalized.objective.coefficients = [3, -5, -4] ∧
      (default.solve toggledProducts .graphical).status = .optimal ∧
      default.solve toggledProducts .graphical =
        default.solve toggledProducts.normalized .graphical ∧
      default.Reports .simplex (default.solveSimplex toggledProducts.normalized)
        (default.solve toggledProducts .graphical) ∧
      default.Reports .general (default.solveGeneral toggledProducts.normalized)
        (default.solve toggledProducts .general) ∧
      (default.solve toggledProducts .general).method = some .general ∧
      default.Reports .graphical (default.solveGraphical toggledFields.normalized)
        (default.solve toggledFields .simplex) ∧
      (default.solve toggledFields .simplex).coordinates = [6, 0] ∧
      (default.solve raggedProducts .general).status = .invalidInput := by
  have hfinite (c : ℚ) : Scalar.isFinite (-Scalar.abs c) = Scalar.isFinite c := rfl
  obtain ⟨-, -, hsame, -, -, -, hproducts⟩ :=
    solve_dispatches hfinite default toggledProducts .graphical
  obtain ⟨-, hgeneral, -, -, -, -, hasked⟩ :=
    solve_dispatches hfinite default toggledProducts .general
  obtain ⟨hgraphical, -, -, -, -, -, hfields⟩ :=
    solve_dispatches hfinite default toggledFields .simplex
  obtain ⟨-, -, -, hragged, -⟩ := solve_dispatches hfinite default raggedProducts .general
  obtain ⟨-, hsimplex, -⟩ := hproducts (by decide +kernel)
  obtain ⟨-, -, hgeneralForm⟩ := hasked (by decide +kernel)
  obtain ⟨hplane, -⟩ := hfields (by decide +kernel)
  exact ⟨hfinite, by decide +kernel, by decide +kernel, hsame, hsimplex rfl,
    hgeneralForm (hgeneral.mpr ⟨by decide, rfl⟩), by decide +kernel,
    hplane (hgraphical.mpr rfl), by decide +kernel, hragged.mpr (by decide +kernel)⟩

end Solver
end LinProg
