import LinProg.Proofs.Simplex.Soundness
import LinProg.Proofs.Solver.Answers

/-!
# Where the methods agree

The two methods take their tolerances at different places: one at determinants, vertices and
directions, the other at reduced costs, pivots and the end of the first phase. They agree on a
problem exactly when the vertices and directions that the one accepts confirm the outcome of the
other. Where no tolerance makes a difference both are right, and so they agree.
-/
namespace LinProg
variable {K : Type}

namespace Solver

/-- The status that an answer of a method is reported with. -/
def statusOf : Except Failure (Solution K) → Status
  | .ok answer => answer.status
  | .error e => e.status

variable [Field K] [LinearOrder K]

/-- Two answers have the same status, and values less than a tolerance apart if both are optimal. -/
def Agree (t : K) (a b : Except Failure (Solution K)) : Prop :=
  statusOf a = statusOf b ∧ ∀ x y, a = .ok x → b = .ok y → |x.value - y.value| < t

theorem agree_error_iff {t : K} {e f : Failure} :
    Agree t (.error e) (.error f) ↔ e.status = f.status := by
  simp [Agree, statusOf]

theorem agree_optimal_iff {t : K} {m n : Method} {x y : List K} {v w : K} {a b : Table} :
    Agree t (.ok (.optimal m x v a)) (.ok (.optimal n y w b)) ↔ |v - w| < t := by
  simp [Agree, statusOf, Solution.optimal]

theorem not_agree_error_optimal {t : K} {e : Failure} {m : Method} {x : List K} {v : K}
    {a : Table} : ¬ Agree t (.error e) (.ok (.optimal m x v a)) := fun h =>
  status_ne_optimal e h.1

theorem not_agree_optimal_error {t : K} {e : Failure} {m : Method} {x : List K} {v : K}
    {a : Table} : ¬ Agree t (.ok (.optimal m x v a)) (.error e) := fun h =>
  status_ne_optimal e h.1.symm

end Solver

variable [Field K] [LinearOrder K] [Polar K]

/-- The vertices and directions that are accepted up to a tolerance lead to the same verdict, and
to a value less than a second tolerance from the given one. -/
def Problem.Confirms (p : Problem K) (t u : K) : Except Failure (Optimum K) → Prop
  | .error .infeasible => p.feasibleVertices t = []
  | .error .unbounded =>
      p.feasibleVertices t ≠ [] ∧ ∃ d ∈ p.directions, p.unboundedAlong t d = true
  | .error _ => False
  | .ok best => (¬ ∃ d ∈ p.directions, p.unboundedAlong t d = true) ∧
      (∃ v ∈ p.feasibleVertices t, p.objective.sense.signed best.value < p.gain.valueAt v + u) ∧
        ∀ v ∈ p.feasibleVertices t, p.gain.valueAt v < p.objective.sense.signed best.value + u

/-- Tolerances by which the same vertices and directions are accepted confirm the same. -/
theorem Problem.confirms_congr {p : Problem K} {t t' u : K}
    (hvertices : p.feasibleVertices t = p.feasibleVertices t')
    (hdirections : ∀ d ∈ p.directions, p.unboundedAlong t d = p.unboundedAlong t' d)
    (outcome : Except Failure (Optimum K)) : p.Confirms t u outcome ↔ p.Confirms t' u outcome := by
  have hray : (∃ d ∈ p.directions, p.unboundedAlong t d = true) ↔
      ∃ d ∈ p.directions, p.unboundedAlong t' d = true :=
    exists_congr fun d => and_congr_right fun hd => by rw [hdirections d hd]
  cases outcome with
  | ok best => rw [Confirms, Confirms, hvertices, hray]
  | error e =>
    cases e with
    | infeasible => rw [Confirms, Confirms, hvertices]
    | unbounded => rw [Confirms, Confirms, hvertices, hray]
    | _ => rfl

namespace Solver
variable [Printable K]

omit [Polar K] in
/-- The simplex method fails as its run does. -/
theorem solveSimplex_of_error {p : Problem K} (hp : p.validate = .ok ()) {s : Solver K}
    {e : Failure} (h : (p.simplex (s.limits s.maxIterations)).outcome = .error e) :
    s.solveSimplex p = .error e := by
  rw [solveSimplex_eq hp, present, h]
  rfl

omit [Polar K] in
theorem solveSimplex_of_ok {p : Problem K} (hp : p.validate = .ok ()) {s : Solver K}
    {best : Optimum K} (h : (p.simplex (s.limits s.maxIterations)).outcome = .ok best) :
    s.solveSimplex p = .ok (.optimal .simplex best.coordinates best.value
      (Simplex.listing p false (p.simplex (s.limits s.maxIterations)).trace)) := by
  rw [solveSimplex_eq hp, present, h]
  rfl

variable [IsStrictOrderedRing K] {s : Solver K} {p : Problem K}

omit [Polar K] [Printable K] in
/-- The largest value at some points is less than a tolerance from another one exactly when all
of them stay below that much more and one of them passes that much less. -/
theorem abs_sub_lt_iff_of_max {vs : List (Point K)} {f : Point K → K} {best : Point K}
    (hbest : best ∈ vs) (hle : ∀ w ∈ vs, f w ≤ f best) (a u : K) :
    |f best - a| < u ↔ (∃ v ∈ vs, a < f v + u) ∧ ∀ v ∈ vs, f v < a + u := by
  rw [abs_sub_lt_iff, sub_lt_iff_lt_add, sub_lt_iff_lt_add]
  constructor
  · rintro ⟨hhigh, hlow⟩
    exact ⟨⟨best, hbest, by rwa [add_comm]⟩, fun v hv => by
      rw [add_comm]
      exact (hle v hv).trans_lt hhigh⟩
  · rintro ⟨⟨v, hv, hlow⟩, hhigh⟩
    refine ⟨by rw [add_comm]; exact hhigh best hbest, ?_⟩
    rw [add_comm]
    exact hlow.trans_le (add_le_add_left (hle v hv) u)

/-- The methods agree if the vertices and directions confirm the outcome of the run, and only
then. -/
theorem agree_iff_confirms (hp : p.validate = .ok ()) (hsize : p.size = 2)
    (hlimit : statusOf (s.solveSimplex p) ≠ .iterationLimit) (u : K) :
    Agree u (s.solveGraphical p) (s.solveSimplex p) ↔ p.Confirms s.feasibilityTolerance u
      (p.simplex (s.limits s.maxIterations)).outcome := by
  rw [Problem.solveGraphical_eq hp]
  cases hrun : (p.simplex (s.limits s.maxIterations)).outcome with
  | error e =>
    rw [solveSimplex_of_error hp hrun]
    rcases Problem.simplex_error_cases hrun with rfl | rfl | rfl
    · rw [Problem.Confirms]
      rcases Problem.bestVertex_trichotomy hsize s.feasibilityTolerance with
        ⟨hempty, heq⟩ | ⟨hempty, _, heq⟩ | ⟨_, best, hbest, heq, _⟩ <;> rw [heq]
      · exact iff_of_true (agree_error_iff.mpr rfl) hempty
      · exact iff_of_false (fun h => Status.noConfusion (agree_error_iff.mp h)) hempty
      · exact iff_of_false not_agree_optimal_error (List.ne_nil_of_mem hbest)
    · rw [Problem.Confirms]
      rcases Problem.bestVertex_trichotomy hsize s.feasibilityTolerance with
        ⟨hempty, heq⟩ | ⟨hempty, hray, heq⟩ | ⟨hray, _, _, heq, _⟩ <;> rw [heq]
      · exact iff_of_false (fun h => Status.noConfusion (agree_error_iff.mp h))
          fun h => h.1 hempty
      · exact iff_of_true (agree_error_iff.mpr rfl) ⟨hempty, hray⟩
      · exact iff_of_false not_agree_optimal_error fun h => hray h.2
    · rw [solveSimplex_of_error hp hrun] at hlimit
      exact absurd rfl hlimit
  | ok best =>
    rw [solveSimplex_of_ok hp hrun, Problem.Confirms]
    rcases Problem.bestVertex_trichotomy hsize s.feasibilityTolerance with
      ⟨hempty, heq⟩ | ⟨_, hray, heq⟩ | ⟨hray, v, hv, heq, hle⟩ <;> rw [heq]
    · exact iff_of_false not_agree_error_optimal (by simp [hempty])
    · exact iff_of_false not_agree_error_optimal fun h => h.1 hray
    · refine agree_optimal_iff.trans ?_
      rw [← Sense.abs_signed_sub_signed p.objective.sense, ← Problem.gain_valueAt hsize,
        abs_sub_lt_iff_of_max hv hle, and_iff_right hray]

omit [Printable K] in
/-- Without a tolerance the vertices and directions confirm whatever is true of the problem. -/
theorem confirms_of_sound (hp : p.validate = .ok ()) (hsize : p.size = 2) (hsep : p.Separated)
    (hypot_pos : ∀ x y : K, x ≠ 0 ∨ y ≠ 0 → 0 < Polar.hypot x y) {limit : ℕ}
    {outcome : Except Failure (Optimum K)} (h : p.Sound limit outcome)
    (hlimit : outcome ≠ .error (.iterationLimit limit)) {u : K} (hu : 0 < u) :
    p.Confirms 0 u outcome := by
  have hray (hbounded : ¬ p.IsUnlimited) {x : List K} (hx : p.IsFeasible x) :
      ¬ ∃ d ∈ p.directions, p.unboundedAlong 0 d = true := by
    rintro ⟨d, _, hd⟩
    obtain ⟨v, rfl⟩ := Problem.exists_toList hsize hx
    obtain ⟨hrec, hgain⟩ := (Problem.unboundedAlong_iff hsize hypot_pos d).mp hd
    exact hbounded (Problem.isUnlimited_of_recedes hp hsize
      ((Problem.isFeasible_toList hp hsize).mp hx) hrec hgain)
  cases outcome with
  | ok best =>
    have hopt : p.IsOptimum best.coordinates best.value := h
    have hnone := hray hopt.not_isUnlimited hopt.feasible
    obtain ⟨v, hv⟩ := Problem.exists_toList hsize hopt.feasible
    have hin : Inside p.halfPlanes v :=
      (Problem.isFeasible_toList hp hsize).mp (hv ▸ hopt.feasible)
    have hvalue : p.gain.valueAt v = p.objective.sense.signed best.value := by
      rw [Problem.gain_valueAt hsize, hopt.value_eq, hv]
      rfl
    obtain ⟨w, hw, hvw⟩ :=
      (Problem.exists_ray_or_vertex hsize hsep hypot_pos hin).resolve_left hnone
    refine ⟨hnone, ⟨w, hw, ?_⟩, fun q hq => ?_⟩
    · rw [← hvalue]
      exact hvw.trans_lt (lt_add_of_pos_right _ hu)
    · have hq := hopt.unbeaten q.toList
        ((Problem.isFeasible_toList hp hsize).mpr (Problem.inside_of_mem_feasibleVertices hq))
      rw [← Bool.not_eq_true, Sense.better_iff, not_lt] at hq
      rw [Problem.gain_valueAt hsize]
      exact hq.trans_lt (lt_add_of_pos_right _ hu)
  | error e =>
    cases e with
    | infeasible =>
      have hbad : ∀ x, ¬ p.IsFeasible x := h
      rw [Problem.Confirms, List.eq_nil_iff_forall_not_mem]
      exact fun v hv => hbad v.toList ((Problem.isFeasible_toList hp hsize).mpr
        (Problem.inside_of_mem_feasibleVertices hv))
    | unbounded =>
      have hfree : p.IsUnlimited := h
      obtain ⟨x, hx, _⟩ := hfree 0
      rcases Problem.bestVertex_cases hp hsize hsep hypot_pos with
        ⟨_, hbad⟩ | ⟨heq, _⟩ | ⟨_, _, hopt⟩
      · exact absurd hx (hbad x)
      · rcases Problem.bestVertex_trichotomy hsize (0 : K) with
          ⟨_, hne⟩ | ⟨hempty, hout, _⟩ | ⟨_, _, _, hne, _⟩
        · rw [heq] at hne
          cases hne
        · exact ⟨hempty, hout⟩
        · rw [heq] at hne
          cases hne
      · exact absurd hfree hopt.not_isUnlimited
    | _ => exact absurd (congrArg Except.error h) hlimit

/-- No tolerance of the solver makes a difference on the problem. -/
structure Indifferent (s : Solver K) (p : Problem K) : Prop where
  separated : p.Separated
  vertices : p.feasibleVertices s.feasibilityTolerance = p.feasibleVertices 0
  directions : ∀ d ∈ p.directions,
    p.unboundedAlong s.feasibilityTolerance d = p.unboundedAlong 0 d
  outcome : (p.simplex (s.limits s.maxIterations)).outcome =
    (p.simplex ⟨s.maxIterations, 0, 0⟩).outcome

theorem Indifferent.agree (h : Indifferent s p) (hp : p.validate = .ok ()) (hsize : p.size = 2)
    (hypot_pos : ∀ x y : K, x ≠ 0 ∨ y ≠ 0 → 0 < Polar.hypot x y)
    (hlimit : statusOf (s.solveSimplex p) ≠ .iterationLimit) {u : K} (hu : 0 < u) :
    Agree u (s.solveGraphical p) (s.solveSimplex p) := by
  rw [agree_iff_confirms hp hsize hlimit, h.outcome,
    Problem.confirms_congr h.vertices h.directions]
  refine confirms_of_sound hp hsize h.separated hypot_pos
    (Problem.sound_simplex hp s.maxIterations) (fun hcap => hlimit ?_) hu
  rw [solveSimplex_of_error hp (h.outcome.trans hcap)]
  rfl

/-- The default methods agree exactly on the problems whose outcome the vertices and directions
confirm, and on these to the last digit where no tolerance makes a difference. -/
theorem methods_agree_iff (p : Problem K) (hp : p.validate = .ok ()) (hsize : p.size = 2)
    (hlimit : statusOf ((default : Solver K).solveSimplex p) ≠ .iterationLimit) :
    (Agree (1 / 10 ^ 6) ((default : Solver K).solveGraphical p) (default.solveSimplex p) ↔
      p.Confirms (1 / 10 ^ 8) (1 / 10 ^ 6)
        (p.simplex ⟨100, 1 / 10 ^ 10, 1 / 10 ^ 8⟩).outcome) ∧
    ((∀ x y : K, x ≠ 0 ∨ y ≠ 0 → 0 < Polar.hypot x y) → Indifferent default p →
      ∀ u, 0 < u → Agree u ((default : Solver K).solveGraphical p) (default.solveSimplex p)) := by
  refine ⟨?_, fun hypot_pos h u hu => h.agree hp hsize hypot_pos hlimit hu⟩
  have hiff := agree_iff_confirms hp hsize hlimit (1 / 10 ^ 6)
  simpa only [default, limits, Scalar.ofDecimal_exact, Nat.cast_one] using hiff

/-- Two equations with small coefficients and one solution. -/
def nearParallel : Problem ℚ where
  names := ["x1", "x2"]
  objective := ⟨[1, 1], .max⟩
  constraints :=
    [⟨"c1", [1 / 2 ^ 17, 1 / 2 ^ 16], .eq, 3⟩, ⟨"c2", [1 / 2 ^ 16, 1 / 2 ^ 17], .eq, 3⟩]
  toggles := .none

/-- The determinant is taken for that of parallels, so the solution is no candidate. -/
theorem methods_disagree_nearParallel : nearParallel.validate = .ok () ∧ nearParallel.size = 2 ∧
    nearParallel.IsFeasible [2 ^ 17, 2 ^ 17] ∧
      statusOf (default.solveGraphical nearParallel) = .infeasible ∧
        statusOf (default.solveSimplex nearParallel) = .optimal := by decide +kernel

/-- Two constraints whose boundaries have rational lengths. -/
def kite : Problem ℚ where
  names := ["x1", "x2"]
  objective := ⟨[3, 2], .max⟩
  constraints := [⟨"c1", [4, 3], .le, 24⟩, ⟨"c2", [3, 4], .le, 24⟩]
  toggles := .none

theorem methods_agree_iff_kite : kite.validate = .ok () ∧ kite.size = 2 ∧
    statusOf (default.solveSimplex kite) ≠ .iterationLimit ∧ Indifferent default kite ∧
      ∀ u, 0 < u → Agree u (default.solveGraphical kite) (default.solveSimplex kite) :=
  have h : Indifferent default kite :=
    ⟨by decide +kernel, by decide +kernel, by decide +kernel, by decide +kernel⟩
  ⟨by decide, rfl, by decide +kernel, h,
    (methods_agree_iff kite (by decide) rfl (by decide +kernel)).2 (fun _ _ => hypot_pos_rat) h⟩

end Solver
end LinProg
