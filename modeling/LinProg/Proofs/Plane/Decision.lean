import LinProg.Proofs.Plane.Candidates
import LinProg.Proofs.Scalar.Rational
import LinProg.Solver.Basic

/-!
# What the graphical method decides

The method compares the feasible candidates and tries the directions of the boundaries. Without a
tolerance, and where no boundaries are parallel only by the tolerance on determinants, this decides
every problem in two variables. Of the length of a vector only its sign is used.
-/
namespace LinProg
variable {K : Type}

namespace Problem
section
variable [Scalar K] [Polar K] {p : Problem K} {t : K}

theorem bestVertex_of_eq_nil (hsize : p.size = 2) (h : p.feasibleVertices t = []) :
    p.bestVertex t = .error .infeasible := by
  rw [bestVertex, if_neg (not_not_intro hsize), h]

theorem bestVertex_of_ray (hsize : p.size = 2) (h : p.feasibleVertices t ≠ [])
    (hray : ∃ d ∈ p.directions, p.unboundedAlong t d = true) :
    p.bestVertex t = .error .unbounded := by
  obtain ⟨first, rest, hvertices⟩ := List.exists_cons_of_ne_nil h
  rw [bestVertex, if_neg (not_not_intro hsize), hvertices]
  exact if_pos (List.any_eq_true.mpr hray)

/-- Where no direction leads out, the feasible vertices are compared one after the other. -/
theorem exists_bestVertex_eq_foldl (hsize : p.size = 2) (h : p.feasibleVertices t ≠ [])
    (hray : ¬ ∃ d ∈ p.directions, p.unboundedAlong t d = true) :
    ∃ first rest, p.feasibleVertices t = first :: rest ∧
      p.bestVertex t = .ok (rest.foldl p.betterPoint first) := by
  obtain ⟨first, rest, hvertices⟩ := List.exists_cons_of_ne_nil h
  refine ⟨first, rest, hvertices, ?_⟩
  rw [bestVertex, if_neg (not_not_intro hsize), hvertices]
  exact if_neg fun hany => hray (List.any_eq_true.mp hany)

theorem solveGraphical_eq [Printable K] (hp : p.validate = .ok ()) (s : Solver K) :
    s.solveGraphical p = (p.bestVertex s.feasibilityTolerance).map fun best =>
      .optimal .graphical best.toList (p.valueAt best) p.graphicalTable := by
  rw [Solver.solveGraphical, hp]
  cases p.bestVertex s.feasibilityTolerance <;> rfl

end

variable [Field K] [LinearOrder K]

/-- The objective as a linear function on the plane that is to be maximised. -/
def gain (p : Problem K) : Line K := ⟨p.maximized[0]?.getD 0, p.maximized[1]?.getD 0, 0⟩

variable {p : Problem K}

theorem gain_valueAt (hsize : p.size = 2) (v : Point K) :
    p.gain.valueAt v = p.objective.sense.signed (p.valueAt v) := by
  have hlen : p.maximized.length ≤ 2 := by
    rw [← hsize, maximized, size]
    split <;> simp
  rw [valueAt, ← dot_maximized, Scalar.dot_exact hlen]
  simp [Finset.sum_range_succ, Point.toList, gain, Line.valueAt]

theorem betterPoint_eq (p : Problem K) (v w : Point K) :
    p.betterPoint v w =
      if p.objective.sense.better (p.valueAt w) (p.valueAt v) = true then w else v := rfl

variable [IsStrictOrderedRing K]

/-- The best of some points is one of them, and none is better. -/
theorem foldl_betterPoint (hsize : p.size = 2) (first : Point K) (rest : List (Point K)) :
    rest.foldl p.betterPoint first ∈ first :: rest ∧
      ∀ w ∈ first :: rest, p.gain.valueAt w ≤ p.gain.valueAt (rest.foldl p.betterPoint first) := by
  induction rest generalizing first with
  | nil => simp
  | cons v rest ih =>
    obtain ⟨hmem, hle⟩ := ih (p.betterPoint first v)
    rw [List.forall_mem_cons] at hle
    have hbetter : p.objective.sense.better (p.valueAt v) (p.valueAt first) = true ↔
        p.gain.valueAt first < p.gain.valueAt v := by
      rw [gain_valueAt hsize, gain_valueAt hsize, Sense.better_iff]
    have hstep : (p.betterPoint first v = first ∨ p.betterPoint first v = v) ∧
        p.gain.valueAt first ≤ p.gain.valueAt (p.betterPoint first v) ∧
          p.gain.valueAt v ≤ p.gain.valueAt (p.betterPoint first v) := by
      rw [betterPoint_eq]
      split_ifs with hlt
      · exact ⟨.inr rfl, (hbetter.mp hlt).le, le_rfl⟩
      · exact ⟨.inl rfl, le_rfl, not_lt.mp fun h => hlt (hbetter.mpr h)⟩
    rw [List.foldl_cons, List.forall_mem_cons, List.forall_mem_cons]
    refine ⟨?_, hstep.2.1.trans hle.1, hstep.2.2.trans hle.1, hle.2⟩
    rcases List.mem_cons.mp hmem with heq | hrest
    · rw [heq]
      rcases hstep.1 with h | h <;> simp [h]
    · exact List.mem_cons_of_mem _ (List.mem_cons_of_mem _ hrest)

variable [Polar K]

/-- Where no direction leads out, the method finds a vertex that no other one beats. -/
theorem exists_bestVertex {t : K} (hsize : p.size = 2) (h : p.feasibleVertices t ≠ [])
    (hray : ¬ ∃ d ∈ p.directions, p.unboundedAlong t d = true) :
    ∃ best ∈ p.feasibleVertices t, p.bestVertex t = .ok best ∧
      ∀ w ∈ p.feasibleVertices t, p.gain.valueAt w ≤ p.gain.valueAt best := by
  obtain ⟨first, rest, hvertices, heq⟩ := exists_bestVertex_eq_foldl hsize h hray
  obtain ⟨hmem, hle⟩ := foldl_betterPoint hsize first rest
  rw [hvertices]
  exact ⟨_, hmem, heq, hle⟩

/-- The three answers of the method, up to any tolerance. -/
theorem bestVertex_trichotomy (hsize : p.size = 2) (t : K) :
    (p.feasibleVertices t = [] ∧ p.bestVertex t = .error .infeasible) ∨
    (p.feasibleVertices t ≠ [] ∧ (∃ d ∈ p.directions, p.unboundedAlong t d = true) ∧
      p.bestVertex t = .error .unbounded) ∨
    ((¬ ∃ d ∈ p.directions, p.unboundedAlong t d = true) ∧ ∃ best ∈ p.feasibleVertices t,
      p.bestVertex t = .ok best ∧
        ∀ w ∈ p.feasibleVertices t, p.gain.valueAt w ≤ p.gain.valueAt best) := by
  by_cases hempty : p.feasibleVertices t = []
  · exact .inl ⟨hempty, bestVertex_of_eq_nil hsize hempty⟩
  by_cases hray : ∃ d ∈ p.directions, p.unboundedAlong t d = true
  · exact .inr (.inl ⟨hempty, hray, bestVertex_of_ray hsize hempty hray⟩)
  · exact .inr (.inr ⟨hray, exists_bestVertex hsize hempty hray⟩)

theorem mem_of_bestVertex {t : K} {best : Point K} (h : p.bestVertex t = .ok best) :
    p.size = 2 ∧ best ∈ p.feasibleVertices t := by
  by_cases hsize : p.size = 2
  · refine ⟨hsize, ?_⟩
    rcases bestVertex_trichotomy hsize t with
      ⟨_, heq⟩ | ⟨_, _, heq⟩ | ⟨_, v, hv, heq, _⟩ <;> rw [heq] at h
    · cases h
    · cases h
    · exact Except.ok.inj h ▸ hv
  · rw [bestVertex, if_pos hsize] at h
    cases h

omit [IsStrictOrderedRing K] in
/-- The test of a direction, made on the vector of length one. -/
theorem unboundedAlong_eq_true {t : K} {d : Point K} : p.unboundedAlong t d = true ↔
    t ≤ Polar.hypot d.x d.y ∧ -t ≤ (d.over (Polar.hypot d.x d.y)).x ∧
      -t ≤ (d.over (Polar.hypot d.x d.y)).y ∧
        p.recedesAlong t (d.over (Polar.hypot d.x d.y)) = true ∧
          p.improvesAlong t (d.over (Polar.hypot d.x d.y)) = true := by
  have hunit : unitVector? t d = if Polar.hypot d.x d.y < t then none
      else some (d.over (Polar.hypot d.x d.y)) := rfl
  rw [unboundedAlong, hunit]
  by_cases h : Polar.hypot d.x d.y < t
  · simp [h]
  · simp [h, not_lt.mp h, and_assoc]

omit [Polar K] in
theorem recedes_over_iff {region : List (Line K)} {d : Point K} {t : K} (ht : 0 < t) :
    Recedes region (d.over t) ↔ Recedes region d := by
  simp only [Recedes, Line.valueAt_over, div_le_iff₀ ht, zero_mul]

omit [Polar K] in
theorem improvesAlong_iff (hsize : p.size = 2) (d : Point K) :
    p.improvesAlong 0 d = true ↔ 0 < p.gain.valueAt d := by
  rw [gain_valueAt hsize, improvesAlong]
  cases p.objective.sense with
  | max => exact decide_eq_true_iff
  | min =>
    refine decide_eq_true_iff.trans ?_
    rw [neg_zero]
    exact neg_pos.symm

/-- A direction is a way out if the region recedes and the objective improves along it. The zero
vector is none, whatever its length is said to be. -/
theorem unboundedAlong_iff (hsize : p.size = 2)
    (hypot_pos : ∀ x y : K, x ≠ 0 ∨ y ≠ 0 → 0 < Polar.hypot x y) (d : Point K) :
    p.unboundedAlong 0 d = true ↔ Recedes p.halfPlanes d ∧ 0 < p.gain.valueAt d := by
  rw [unboundedAlong_eq_true, improvesAlong_iff hsize, recedesAlong_iff, neg_zero]
  by_cases hd : d.x ≠ 0 ∨ d.y ≠ 0
  · have hpos := hypot_pos d.x d.y hd
    rw [← recedes_over_iff hpos, recedes_halfPlanes_iff, Line.valueAt_over, lt_div_iff₀ hpos,
      zero_mul]
    simp [hpos.le, and_assoc]
  · obtain ⟨hx, hy⟩ : d.x = 0 ∧ d.y = 0 := by tauto
    have hzero : p.gain.valueAt d = 0 := by simp [Line.valueAt, hx, hy]
    rw [Line.valueAt_over, hzero, zero_div]
    simp

omit [Polar K] in
/-- A direction of a boundary that stays in the first quadrant is among those that are tried. -/
theorem mem_directions {h : Line K} (hh : h ∈ p.halfPlanes) {d : Point K}
    (hd : d = h.along ∨ d = h.along.reverse) (hx : 0 ≤ d.x) (hy : 0 ≤ d.y) :
    d ∈ p.directions := by
  obtain ⟨l, hl, hhl⟩ := exists_line_of_mem_halfPlanes hh
  have hline : d = l.along ∨ d = l.along.reverse := by
    rcases hhl with rfl | rfl
    · exact hd
    · rw [Line.along_flip, Line.reverse_reverse] at hd
      exact hd.symm
  rw [directions, List.mem_cons, List.mem_cons, List.mem_flatMap]
  rw [lines, List.mem_cons, List.mem_cons] at hl
  rcases hl with rfl | rfl | hl
  · refine .inr (.inl (hline.elim (fun h => ?_) fun h => ?_))
    · rw [h] at hy
      exact absurd hy (by simp [Line.along, Line.yAxis])
    · rw [h]
      simp [Line.along, Line.yAxis, Point.reverse]
  · refine .inl (hline.elim (fun h => ?_) fun h => ?_)
    · rw [h]
      simp [Line.along, Line.xAxis]
    · rw [h] at hx
      exact absurd hx (by simp [Line.along, Line.xAxis, Point.reverse])
  · refine .inr (.inr ⟨l, hl, ?_⟩)
    rcases hline with rfl | rfl <;> simp [Line.along, Point.reverse]

theorem exists_ray_or_vertex (hsize : p.size = 2) (hsep : p.Separated)
    (hypot_pos : ∀ x y : K, x ≠ 0 ∨ y ≠ 0 → 0 < Polar.hypot x y) {v : Point K}
    (hv : Inside p.halfPlanes v) : (∃ d ∈ p.directions, p.unboundedAlong 0 d = true) ∨
      ∃ w ∈ p.feasibleVertices 0, p.gain.valueAt v ≤ p.gain.valueAt w := by
  rcases recedes_or_exists_corner p.xAxis_mem_halfPlanes p.yAxis_mem_halfPlanes hv p.gain with
    ⟨d, hd, hrec, hgain⟩ | ⟨w, hw, hle⟩
  · refine .inl ⟨d, ?_, (unboundedAlong_iff hsize hypot_pos d).mpr ⟨hrec, hgain⟩⟩
    rcases hd with rfl | ⟨h, hh, hd⟩
    · exact List.mem_cons_self
    · exact mem_directions hh hd (hrec.x_nonneg p.yAxis_mem_halfPlanes)
        (hrec.y_nonneg p.xAxis_mem_halfPlanes)
  · exact .inr ⟨w, mem_feasibleVertices_of_isCorner hsep hw, hle⟩

omit [Polar K] in
/-- A region that is not empty has a vertex: to ask for nothing is to be content with a corner. -/
theorem feasibleVertices_ne_nil (hsep : p.Separated) {v : Point K} (hv : Inside p.halfPlanes v) :
    p.feasibleVertices 0 ≠ [] := by
  rcases recedes_or_exists_corner p.xAxis_mem_halfPlanes p.yAxis_mem_halfPlanes hv ⟨0, 0, 0⟩ with
    ⟨d, _, _, hgain⟩ | ⟨w, hw, _⟩
  · simp [Line.valueAt] at hgain
  · exact List.ne_nil_of_mem (mem_feasibleVertices_of_isCorner hsep hw)

omit [Polar K] in
theorem inside_of_mem_feasibleVertices {v : Point K} (hv : v ∈ p.feasibleVertices 0) :
    Inside p.halfPlanes v :=
  feasible_iff_inside.mp (List.mem_filter.mp hv).2

omit [Polar K] in
theorem isUnlimited_of_recedes (hp : p.validate = .ok ()) (hsize : p.size = 2) {v d : Point K}
    (hv : Inside p.halfPlanes v) (hrec : Recedes p.halfPlanes d) (hgain : 0 < p.gain.valueAt d) :
    p.IsUnlimited := by
  intro bound
  obtain ⟨t, ht, hgt⟩ :=
    exists_lt_add_mul (p.gain.valueAt v) hgain (p.objective.sense.signed bound)
  refine ⟨_, (isFeasible_toList hp hsize).mpr (hrec.inside_move hv ht), ?_⟩
  rw [Sense.better_iff]
  rwa [← Line.valueAt_move, gain_valueAt hsize] at hgt

/-- The method is right in each of its three answers. -/
theorem bestVertex_cases (hp : p.validate = .ok ()) (hsize : p.size = 2) (hsep : p.Separated)
    (hypot_pos : ∀ x y : K, x ≠ 0 ∨ y ≠ 0 → 0 < Polar.hypot x y) :
    (p.bestVertex 0 = .error .infeasible ∧ ∀ x, ¬ p.IsFeasible x) ∨
    (p.bestVertex 0 = .error .unbounded ∧ (∃ x, p.IsFeasible x) ∧ p.IsUnlimited) ∨
    ∃ best, p.bestVertex 0 = .ok best ∧ p.IsOptimum best.toList (p.valueAt best) := by
  rcases bestVertex_trichotomy hsize 0 with
    ⟨hempty, heq⟩ | ⟨hempty, ⟨d, _, hd⟩, heq⟩ | ⟨hray, best, hbest, heq, hle⟩
  · refine .inl ⟨heq, fun x hx => ?_⟩
    obtain ⟨v, rfl⟩ := exists_toList hsize hx
    exact feasibleVertices_ne_nil hsep ((isFeasible_toList hp hsize).mp hx) hempty
  · obtain ⟨v, hv⟩ := List.exists_mem_of_ne_nil _ hempty
    have hin := inside_of_mem_feasibleVertices hv
    obtain ⟨hrec, hgain⟩ := (unboundedAlong_iff hsize hypot_pos d).mp hd
    exact .inr (.inl ⟨heq, ⟨_, (isFeasible_toList hp hsize).mpr hin⟩,
      isUnlimited_of_recedes hp hsize hin hrec hgain⟩)
  · refine .inr (.inr ⟨best, heq, (isFeasible_toList hp hsize).mpr
      (inside_of_mem_feasibleVertices hbest), rfl, fun x hx => ?_⟩)
    obtain ⟨v, rfl⟩ := exists_toList hsize hx
    obtain ⟨w, hw, hvw⟩ := (exists_ray_or_vertex hsize hsep hypot_pos
      ((isFeasible_toList hp hsize).mp hx)).resolve_left hray
    rw [← Bool.not_eq_true, Sense.better_iff, not_lt]
    have hbetter := hvw.trans (hle w hw)
    rwa [gain_valueAt hsize, gain_valueAt hsize] at hbetter

/-- A problem in two variables is infeasible, unbounded or has an optimum as the method says. -/
theorem solveGraphical_decides [Printable K] (s : Solver K) (hs : s.feasibilityTolerance = 0)
    (hp : p.validate = .ok ()) (hsize : p.size = 2) (hsep : p.Separated)
    (hypot_pos : ∀ x y : K, x ≠ 0 ∨ y ≠ 0 → 0 < Polar.hypot x y) :
    (s.solveGraphical p = .error .infeasible ↔ ∀ x, ¬ p.IsFeasible x) ∧
    (s.solveGraphical p = .error .unbounded ↔ (∃ x, p.IsFeasible x) ∧ p.IsUnlimited) ∧
    ((∃ x, p.IsFeasible x) → ¬ p.IsUnlimited → ∃ x v,
      s.solveGraphical p = .ok (.optimal .graphical x v p.graphicalTable) ∧ p.IsOptimum x v) := by
  rw [solveGraphical_eq hp, hs]
  rcases bestVertex_cases hp hsize hsep hypot_pos with
    ⟨heq, hbad⟩ | ⟨heq, hgood, hfree⟩ | ⟨best, heq, hbest⟩
  · rw [heq]
    refine ⟨iff_of_true rfl hbad, iff_of_false (by simp [Except.map]) fun h => ?_, fun h => ?_⟩
    · exact h.1.elim hbad
    · exact h.elim fun x hx => absurd hx (hbad x)
  · rw [heq]
    refine ⟨iff_of_false (by simp [Except.map]) fun hbad => hgood.elim hbad,
      iff_of_true rfl ⟨hgood, hfree⟩, fun _ hbounded => absurd hfree hbounded⟩
  · rw [heq]
    refine ⟨iff_of_false (by simp [Except.map]) fun hbad => hbad _ hbest.feasible,
      iff_of_false (by simp [Except.map]) fun h => hbest.not_isUnlimited h.2,
      fun _ _ => ⟨_, _, rfl, hbest⟩⟩

/-- An unbounded region, with a constraint that says nothing. -/
def wedge : Problem ℚ where
  names := ["x1", "x2"]
  objective := ⟨[1, 1], .max⟩
  constraints := [⟨"c1", [4, -3], .le, 12⟩, ⟨"c2", [3, 4], .ge, 12⟩, ⟨"c3", [0, 0], .le, 0⟩]
  toggles := .none

theorem solveGraphical_decides_wedge : wedge.validate = .ok () ∧ wedge.size = 2 ∧
    wedge.Separated ∧ (∀ x y : ℚ, x ≠ 0 ∨ y ≠ 0 → 0 < Polar.hypot x y) ∧ wedge.IsUnlimited :=
  ⟨by decide, rfl, by decide +kernel, fun _ _ => hypot_pos_rat,
    ((solveGraphical_decides (p := wedge) ⟨0, 0, 0, 0⟩ rfl (by decide) rfl (by decide +kernel)
      fun _ _ => hypot_pos_rat).2.1.mp (by decide +kernel)).2⟩

end Problem
end LinProg
