import LinProg.Proofs.Plane.Decision
import LinProg.Proofs.Problem.Names

/-!
# The order of the constraints does not matter

Two lines meet in the same point whichever of them comes first, and no line meets itself. So the
candidates and the directions that the graphical method tries depend on which constraints a problem
has, but not on their order, their names or on how often they are stated. Among equally good
vertices another one may come first, but its value is the same. Nothing is assumed of the
lengths of vectors, and the tolerance may be any number.
-/
namespace LinProg
variable {K : Type}

/-- The objective is the same, and so are the constraints apart from their order, their repetitions
and their names. -/
structure Problem.Rearranges (q p : Problem K) : Prop where
  objective_eq : q.objective = p.objective
  mem_iff : ∀ c, c ∈ q.unnamed.constraints ↔ c ∈ p.unnamed.constraints

namespace Problem.Rearranges
variable {p q : Problem K}

theorem of_perm {constraints : List (Constraint K)} (h : constraints.Perm p.constraints) :
    Rearranges { p with constraints } p := ⟨rfl, fun _ => (h.map Constraint.unnamed).mem_iff⟩

theorem of_repeated {c d : Constraint K} (hc : c ∈ p.constraints) (hd : d.unnamed = c.unnamed) :
    Rearranges { p with constraints := d :: p.constraints } p := by
  refine ⟨rfl, fun e => ?_⟩
  have hmem : c.unnamed ∈ p.constraints.map Constraint.unnamed := List.mem_map_of_mem hc
  simp only [unnamed_constraints, List.map_cons, List.mem_cons, hd]
  exact or_iff_right_of_imp fun he => he ▸ hmem

theorem trans {r : Problem K} (h : r.Rearranges q) (h' : q.Rearranges p) : r.Rearranges p :=
  ⟨h.objective_eq.trans h'.objective_eq, fun c => (h.mem_iff c).trans (h'.mem_iff c)⟩

theorem size_eq (h : q.Rearranges p) : q.size = p.size := by rw [size, size, h.objective_eq]

/-- A test that does not look at names is passed by all constraints of both problems or of none. -/
theorem all_eq (h : q.Rearranges p) {test : Constraint K → Bool}
    (htest : ∀ c, test c.unnamed = test c) : q.constraints.all test = p.constraints.all test := by
  have hall : q.unnamed.constraints.all test = p.unnamed.constraints.all test := by
    rw [Bool.eq_iff_iff, List.all_eq_true, List.all_eq_true]
    exact forall_congr' fun c => imp_congr_left (h.mem_iff c)
  simpa only [unnamed_constraints, List.all_map, Function.comp_def, htest] using hall

variable [Field K] [LinearOrder K]

theorem valueAt_eq (h : q.Rearranges p) : q.valueAt = p.valueAt := by
  funext v
  rw [valueAt, valueAt, objectiveAt, objectiveAt, h.objective_eq]

theorem gain_eq (h : q.Rearranges p) : q.gain = p.gain := by
  rw [gain, gain, maximized, maximized, h.objective_eq]

theorem validate_eq_ok (h : q.Rearranges p) (hp : p.validate = .ok ()) : q.validate = .ok () := by
  obtain ⟨hsize, hlength⟩ := validate_exact.mp hp
  refine validate_exact.mpr ⟨h.size_eq ▸ hsize, fun c hc => ?_⟩
  obtain ⟨d, hd, hdc⟩ := List.mem_map.mp ((h.mem_iff c.unnamed).mp (List.mem_map_of_mem hc))
  have hcoefficients : d.unnamed.coefficients = c.unnamed.coefficients := congrArg _ hdc
  exact (congrArg List.length hcoefficients.symm).trans ((hlength d hd).trans h.size_eq.symm)

theorem mem_boundaries_iff (h : q.Rearranges p) (l : Line K) :
    l ∈ q.boundaries ↔ l ∈ p.boundaries := by
  rw [← q.unnamed_boundaries, ← p.unnamed_boundaries, boundaries, boundaries, List.mem_map,
    List.mem_map]
  exact exists_congr fun c => and_congr_left' (h.mem_iff c)

end Problem.Rearranges

section
variable [Field K] [LinearOrder K] [IsStrictOrderedRing K]

namespace Problem.Rearranges
variable {p q : Problem K}

theorem mem_candidateVertices_iff (h : q.Rearranges p) (v : Point K) :
    v ∈ q.candidateVertices ↔ v ∈ p.candidateVertices := by
  simp only [candidateVertices, List.mem_append, Line.mem_meets_iff, List.mem_flatMap,
    h.mem_boundaries_iff]

theorem mem_feasibleVertices_iff (h : q.Rearranges p) (t : K) (v : Point K) :
    v ∈ q.feasibleVertices t ↔ v ∈ p.feasibleVertices t := by
  have hfeasible : v.feasible t q.constraints = v.feasible t p.constraints := by
    rw [Point.feasible, Point.feasible, h.all_eq fun _ => rfl]
  rw [feasibleVertices, feasibleVertices, List.mem_filter, List.mem_filter,
    h.mem_candidateVertices_iff, hfeasible]

omit [IsStrictOrderedRing K] in
theorem mem_directions_iff (h : q.Rearranges p) (d : Point K) :
    d ∈ q.directions ↔ d ∈ p.directions := by
  simp only [directions, List.mem_cons, List.mem_flatMap, h.mem_boundaries_iff]

variable [Polar K]

omit [IsStrictOrderedRing K] in
theorem unboundedAlong_eq (h : q.Rearranges p) (t : K) :
    q.unboundedAlong t = p.unboundedAlong t := by
  have hrecedes (u : Point K) : q.recedesAlong t u = p.recedesAlong t u := h.all_eq fun _ => rfl
  have himproves (u : Point K) : q.improvesAlong t u = p.improvesAlong t u := by
    rw [improvesAlong, improvesAlong, h.valueAt_eq, h.objective_eq]
  funext d
  simp only [unboundedAlong, hrecedes, himproves]

omit [IsStrictOrderedRing K] in
theorem exists_unboundedAlong_iff (h : q.Rearranges p) (t : K) :
    (∃ d ∈ q.directions, q.unboundedAlong t d = true) ↔
      ∃ d ∈ p.directions, p.unboundedAlong t d = true := by
  rw [h.unboundedAlong_eq t]
  exact exists_congr fun d => and_congr_left' (h.mem_directions_iff d)

/-- The graphical method fails alike or finds a vertex of the same value. -/
theorem map_bestVertex_eq (h : q.Rearranges p) (t : K) :
    (q.bestVertex t).map q.valueAt = (p.bestVertex t).map p.valueAt := by
  by_cases hsize : p.size = 2
  swap
  · rw [bestVertex, bestVertex, h.size_eq, if_pos hsize, if_pos hsize]
    rfl
  have hsize' : q.size = 2 := h.size_eq.trans hsize
  have hempty : q.feasibleVertices t = [] ↔ p.feasibleVertices t = [] := by
    simp only [List.eq_nil_iff_forall_not_mem, h.mem_feasibleVertices_iff]
  by_cases hnone : p.feasibleVertices t = []
  · rw [bestVertex_of_eq_nil hsize hnone, bestVertex_of_eq_nil hsize' (hempty.mpr hnone)]
    rfl
  by_cases hray : ∃ d ∈ p.directions, p.unboundedAlong t d = true
  · rw [bestVertex_of_ray hsize hnone hray, bestVertex_of_ray hsize' (mt hempty.mp hnone)
      ((h.exists_unboundedAlong_iff t).mpr hray)]
    rfl
  · obtain ⟨v, hv, heq, hle⟩ := exists_bestVertex hsize hnone hray
    obtain ⟨w, hw, heq', hle'⟩ := exists_bestVertex hsize' (mt hempty.mp hnone)
      (mt (h.exists_unboundedAlong_iff t).mp hray)
    -- each of the two vertices is one of the others, so none of them is better
    have hgain : p.gain.valueAt w = p.gain.valueAt v := by
      apply le_antisymm (hle w ((h.mem_feasibleVertices_iff t w).mp hw))
      have hvw := hle' v ((h.mem_feasibleVertices_iff t v).mpr hv)
      rwa [h.gain_eq] at hvw
    rw [gain_valueAt hsize, gain_valueAt hsize] at hgain
    have hvalue := congrArg p.objective.sense.signed hgain
    rw [Sense.signed_signed, Sense.signed_signed] at hvalue
    rw [heq, heq', h.valueAt_eq]
    exact congrArg Except.ok hvalue

end Problem.Rearranges

namespace Problem
variable [Polar K] [Printable K] {p q : Problem K}

/-- The constraints may be put into any order and stated any number of times: the graphical method
reports the same status and the same value. -/
theorem solveGraphical_of_rearranges (s : Solver K) (hp : p.validate = .ok ())
    (h : q.Rearranges p) : q.validate = .ok () ∧
      (s.solveGraphical q).map (fun a => (a.status, a.value)) =
        (s.solveGraphical p).map fun a => (a.status, a.value) := by
  have hreport {r : Problem K} (hr : r.validate = .ok ()) :
      (s.solveGraphical r).map (fun a => (a.status, a.value)) =
        ((r.bestVertex s.feasibilityTolerance).map r.valueAt).map (Prod.mk Status.optimal) := by
    rw [solveGraphical_eq hr]
    cases r.bestVertex s.feasibilityTolerance <;> rfl
  have hq := h.validate_eq_ok hp
  refine ⟨hq, ?_⟩
  rw [hreport hq, hreport hp, h.map_bestVertex_eq]

/-- The objective is level along a whole edge, and one constraint says nothing. -/
def levelEdge : Problem ℚ where
  names := ["x1", "x2"]
  objective := ⟨[1, 1], .max⟩
  constraints := [⟨"c1", [1, 1], .le, 4⟩, ⟨"c2", [1, 0], .le, 3⟩, ⟨"c3", [0, 1], .le, 3⟩,
    ⟨"c4", [0, 0], .ge, 0⟩]
  toggles := .none

/-- The same constraints backwards, after one of them under another name. -/
def levelEdgeBackwards : Problem ℚ :=
  { levelEdge with
    constraints := ⟨"again", [1, 1], .le, 4⟩ :: levelEdge.constraints.reverse }

/-- The other end of the edge is found, which has the same value. -/
theorem solveGraphical_of_rearranges_levelEdge : levelEdge.validate = .ok () ∧
    levelEdgeBackwards.Rearranges levelEdge ∧
      (Solver.default.solveGraphical levelEdge).map Solution.coordinates = .ok [3, 1] ∧
      (Solver.default.solveGraphical levelEdgeBackwards).map Solution.coordinates = .ok [1, 3] ∧
      (Solver.default.solveGraphical levelEdgeBackwards).map (fun a => (a.status, a.value)) =
        .ok (.optimal, 4) := by
  have hfirst : (⟨"c1", [1, 1], .le, 4⟩ : Constraint ℚ) ∈ levelEdge.constraints.reverse := by
    decide
  have h : levelEdgeBackwards.Rearranges levelEdge :=
    .trans (.of_repeated (p := { levelEdge with constraints := levelEdge.constraints.reverse })
      hfirst rfl) (.of_perm (List.reverse_perm levelEdge.constraints))
  refine ⟨by decide, h, by decide +kernel, by decide +kernel, ?_⟩
  rw [(solveGraphical_of_rearranges Solver.default (p := levelEdge) (by decide) h).2]
  decide +kernel

end Problem
end
end LinProg
