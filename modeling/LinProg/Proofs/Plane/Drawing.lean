import LinProg.Plane.Region
import LinProg.Proofs.Plane.Decision
import LinProg.Proofs.Plane.Distinct
import LinProg.Proofs.Simplex.Selection

/-!
# What is drawn and what is found

The drawing of a region and the graphical method try the same candidates with the same tolerance.
The drawing shows each accepted point once: points that are near to an earlier one are left out, so
that what it shows depends on the order of the candidates, and an accepted point is shown itself or
by a point near to it. Of the numbers no more is assumed than that they can be compared and that
their distance does not depend on their order, so that this holds where operations round.
-/
namespace LinProg
variable {K : Type} [Scalar K]

theorem Sense.better_irrefl [Scalar.Ordered K] (s : Sense) (a : K) : s.better a a = false := by
  cases s <;> simp [better, not_lt_self]

theorem Sense.better_asymm [Scalar.Ordered K] {s : Sense} {a b : K} (h : s.better a b = true) :
    s.better b a = false := by
  cases s with
  | max => exact decide_eq_false (Scalar.Ordered.lt_asymm (of_decide_eq_true h))
  | min => exact decide_eq_false (Scalar.Ordered.lt_asymm (of_decide_eq_true h))

/-- What does not beat a number does not beat what that number does not beat. -/
theorem Sense.not_better_trans [Scalar.Ordered K] {s : Sense} {a b c : K}
    (hab : s.better a b = false) (hbc : s.better b c = false) : s.better a c = false := by
  cases s with
  | max =>
    refine decide_eq_false fun hca => ?_
    exact (Scalar.Ordered.lt_or_lt hca b).elim (of_decide_eq_false hbc) (of_decide_eq_false hab)
  | min =>
    refine decide_eq_false fun hac => ?_
    exact (Scalar.Ordered.lt_or_lt hac b).elim (of_decide_eq_false hab) (of_decide_eq_false hbc)

theorem Point.sortByAngle_perm [Polar K] (center : Point K) (points : List (Point K)) :
    (sortByAngle center points).Perm points := List.mergeSort_perm _ _

namespace Problem
variable {p : Problem K}

/-- No point that was compared is better than the one that is left. -/
theorem foldl_betterPoint_unbeaten [Scalar.Ordered K] (first : Point K) (rest : List (Point K)) :
    rest.foldl p.betterPoint first ∈ first :: rest ∧ ∀ v ∈ first :: rest,
      p.objective.sense.better (p.valueAt v) (p.valueAt (rest.foldl p.betterPoint first)) =
        false := by
  induction rest generalizing first with
  | nil => simp [Sense.better_irrefl]
  | cons w rest ih =>
    obtain ⟨hmem, hbest⟩ := ih (p.betterPoint first w)
    have hstep : (p.betterPoint first w = first ∨ p.betterPoint first w = w) ∧
        ∀ v ∈ [first, w],
          p.objective.sense.better (p.valueAt v) (p.valueAt (p.betterPoint first w)) = false := by
      rw [betterPoint]
      split_ifs with hbetter
      · simp [Sense.better_irrefl, Sense.better_asymm hbetter]
      · simp [Sense.better_irrefl, Bool.eq_false_iff.mpr hbetter]
    rw [List.foldl_cons]
    refine ⟨?_, fun v hv => ?_⟩
    · rcases List.mem_cons.mp hmem with heq | hrest
      · rw [heq]
        rcases hstep.1 with h | h <;> simp [h]
      · exact List.mem_cons_of_mem _ (List.mem_cons_of_mem _ hrest)
    · rcases List.mem_cons.mp hv with rfl | hv
      · exact Sense.not_better_trans (hstep.2 v (by simp)) (hbest _ List.mem_cons_self)
      · rcases List.mem_cons.mp hv with rfl | hv
        · exact Sense.not_better_trans (hstep.2 v (by simp)) (hbest _ List.mem_cons_self)
        · exact hbest v (List.mem_cons_of_mem _ hv)

variable [Polar K]

theorem region_eq (hp : p.validate = .ok ()) (hsize : p.size = 2) :
    p.region = if p.distinctVertices.length < 3 then p.distinctVertices
      else Point.sortByAngle (Point.centroid p.distinctVertices) p.distinctVertices := by
  have hfault : p.fault? = none := validate_eq_ok.mp hp
  rw [region, if_neg (by simp [hsize, hfault])]

/-- The drawing has the distinct vertices in some order. -/
theorem region_perm (hp : p.validate = .ok ()) (hsize : p.size = 2) :
    p.region.Perm p.distinctVertices := by
  rw [region_eq hp hsize]
  split_ifs
  · exact List.Perm.refl _
  · exact Point.sortByAngle_perm _ _

/-- A point is shown by itself or by a point near to it. -/
def Shows (p : Problem K) (v : Point K) : Prop :=
  v ∈ p.region ∨ ∃ w ∈ p.region, w.near Point.sameTolerance v = true

theorem mem_feasibleVertices_of_mem_region (hp : p.validate = .ok ()) (hsize : p.size = 2)
    {v : Point K} (hv : v ∈ p.region) : v ∈ p.feasibleVertices drawingTolerance :=
  (Point.distinct_sublist _ _).subset ((region_perm hp hsize).mem_iff.mp hv)

theorem shows_of_mem_feasibleVertices (hp : p.validate = .ok ()) (hsize : p.size = 2)
    {v : Point K} (hv : v ∈ p.feasibleVertices drawingTolerance) : p.Shows v := by
  have hmem (w : Point K) : w ∈ p.region ↔ w ∈ p.distinctVertices :=
    (region_perm hp hsize).mem_iff
  simp only [Shows, hmem]
  exact Point.mem_or_near_distinct Point.sameTolerance hv

theorem region_eq_nil_iff (hp : p.validate = .ok ()) (hsize : p.size = 2) :
    p.region = [] ↔ p.feasibleVertices drawingTolerance = [] := by
  rw [← List.perm_nil, (region_perm hp hsize).congr_left, List.perm_nil]
  exact Point.distinct_eq_nil_iff

/-- No two points that are shown are near to one another. -/
theorem pairwise_region (hdist : ∀ a b : K, Scalar.abs (a - b) = Scalar.abs (b - a))
    (hp : p.validate = .ok ()) (hsize : p.size = 2) :
    p.region.Pairwise (Point.Apart Point.sameTolerance) := by
  have hsymm {v w : Point K} (h : v.Apart Point.sameTolerance w) :
      w.Apart Point.sameTolerance v := (Point.near_comm hdist _ w v).trans h
  exact ((region_perm hp hsize).pairwise_iff hsymm).mpr (Point.pairwise_distinct _ _)

/-- A vertex that the method may answer with is shown, and no point that is shown is better. -/
theorem shows_best [Scalar.Ordered K] (hp : p.validate = .ok ()) (hsize : p.size = 2)
    {best : Point K} (h : p.bestVertex drawingTolerance = .ok best) : p.Shows best ∧
      ∀ v ∈ p.region, p.objective.sense.better (p.valueAt v) (p.valueAt best) = false := by
  have hempty : p.feasibleVertices drawingTolerance ≠ [] := fun hempty => by
    rw [bestVertex_of_eq_nil hsize hempty] at h
    cases h
  have hray : ¬ ∃ d ∈ p.directions, p.unboundedAlong drawingTolerance d = true := fun hray => by
    rw [bestVertex_of_ray hsize hempty hray] at h
    cases h
  obtain ⟨first, rest, hvertices, heq⟩ := exists_bestVertex_eq_foldl hsize hempty hray
  obtain rfl : rest.foldl p.betterPoint first = best := Except.ok.inj (heq.symm.trans h)
  obtain ⟨hmem, hunbeaten⟩ := p.foldl_betterPoint_unbeaten first rest
  rw [← hvertices] at hmem hunbeaten
  exact ⟨shows_of_mem_feasibleVertices hp hsize hmem,
    fun v hv => hunbeaten v (mem_feasibleVertices_of_mem_region hp hsize hv)⟩

theorem bestVertex_eq_infeasible_iff {t : K} (hsize : p.size = 2) :
    p.bestVertex t = .error .infeasible ↔ p.feasibleVertices t = [] := by
  refine ⟨fun h => ?_, bestVertex_of_eq_nil hsize⟩
  by_contra hempty
  by_cases hray : ∃ d ∈ p.directions, p.unboundedAlong t d = true
  · rw [bestVertex_of_ray hsize hempty hray] at h
    cases h
  · obtain ⟨first, rest, _, heq⟩ := exists_bestVertex_eq_foldl hsize hempty hray
    rw [heq] at h
    cases h

/-- The drawing of a region is empty exactly if the graphical method finds it to be so. It shows
accepted candidates only and all of them, no two of which are near to one another, and among them
the optimum that the method finds and nothing better. -/
theorem region_agrees [Scalar.Ordered K] [Printable K]
    (hdist : ∀ a b : K, Scalar.abs (a - b) = Scalar.abs (b - a)) {s : Solver K}
    (hs : s.feasibilityTolerance = Solver.default.feasibilityTolerance)
    (hp : p.validate = .ok ()) (hsize : p.size = 2) :
    (p.region = [] ↔ s.solveGraphical p = .error .infeasible) ∧
    (∀ v ∈ p.region,
      v ∈ p.candidateVertices ∧ v.feasible (Scalar.ofDecimal 1 8) p.constraints = true) ∧
    (∀ v ∈ p.candidateVertices,
      v.feasible (Scalar.ofDecimal 1 8) p.constraints = true → p.Shows v) ∧
    p.region.Pairwise (fun v w => v.near (Scalar.ofDecimal 1 9) w = false ∧
      w.near (Scalar.ofDecimal 1 9) v = false) ∧
    ∀ a, s.solveGraphical p = .ok a → ∃ best : Point K, a.coordinates = best.toList ∧
      p.Shows best ∧
        ∀ v ∈ p.region, p.objective.sense.better (p.valueAt v) (p.valueAt best) = false := by
  have htolerance : s.feasibilityTolerance = drawingTolerance := hs
  rw [solveGraphical_eq hp, htolerance]
  refine ⟨?_, fun v hv => ?_, fun v hv haccepted => ?_, ?_, fun a ha => ?_⟩
  · rw [region_eq_nil_iff hp hsize, ← bestVertex_eq_infeasible_iff hsize]
    cases p.bestVertex drawingTolerance <;> simp [Except.map]
  · exact List.mem_filter.mp (mem_feasibleVertices_of_mem_region hp hsize hv)
  · exact shows_of_mem_feasibleVertices hp hsize (List.mem_filter.mpr ⟨hv, haccepted⟩)
  · exact (pairwise_region hdist hp hsize).imp
      fun h => ⟨h, (Point.near_comm hdist _ _ _).trans h⟩
  · cases hbest : p.bestVertex drawingTolerance with
    | error e =>
      rw [hbest] at ha
      cases ha
    | ok best =>
      rw [hbest] at ha
      cases ha
      exact ⟨best, rfl, shows_best hp hsize hbest⟩

/-- Two corners that are nearer to one another than the points of a drawing may be. -/
def blurredCorner : Problem ℚ where
  names := ["x1", "x2"]
  objective := ⟨[1, 1], .max⟩
  constraints := [⟨"c1", [1, 0], .le, 3⟩, ⟨"c2", [1, 1], .le, 4⟩,
    ⟨"c3", [0, 1], .le, 1 + 1 / 2000000000⟩]
  toggles := .none

/-- The optimum is the corner that is not drawn. -/
theorem region_agrees_blurredCorner : blurredCorner.validate = .ok () ∧ blurredCorner.size = 2 ∧
    (Solver.default.solveGraphical blurredCorner).map Solution.coordinates =
      .ok [3, 1 + 1 / 2000000000] ∧
    ⟨3, 1 + 1 / 2000000000⟩ ∉ blurredCorner.region ∧
    blurredCorner.Shows ⟨3, 1 + 1 / 2000000000⟩ := by
  have hp : blurredCorner.validate = .ok () := by decide +kernel
  have hfound : (Solver.default.solveGraphical blurredCorner).map Solution.coordinates =
      .ok [3, 1 + 1 / 2000000000] := by decide +kernel
  have hdrawn : (⟨3, 1 + 1 / 2000000000⟩ : Point ℚ) ∉ blurredCorner.distinctVertices := by
    decide +kernel
  obtain ⟨_, _, _, _, h⟩ := region_agrees (p := blurredCorner) (fun a b => abs_sub_comm a b)
    (s := Solver.default) rfl hp rfl
  refine ⟨hp, rfl, hfound, fun hv => hdrawn ((region_perm hp rfl).mem_iff.mp hv), ?_⟩
  cases ha : Solver.default.solveGraphical blurredCorner with
  | error e =>
    rw [ha] at hfound
    cases hfound
  | ok a =>
    rw [ha] at hfound
    obtain ⟨⟨x, y⟩, hbest, hshows, _⟩ := h a ha
    have hpoint : [x, y] = [3, 1 + 1 / 2000000000] := hbest.symm.trans (Except.ok.inj hfound)
    simp only [List.cons.injEq, and_true] at hpoint
    rwa [hpoint.1, hpoint.2] at hshows

end Problem
end LinProg
