import LinProg.Plane.Vertices
import LinProg.Proofs.Plane.HalfPlane

/-!
# The candidates are complete

The region of a problem in two variables is cut out by half-planes whose boundaries are the lines
of the constraints and the axes. Where no two of these lines are parallel only by the tolerance,
every corner of the region is among the candidate vertices.
-/
namespace LinProg
variable {K : Type} [Field K] [LinearOrder K]

/-- The half-planes between which a line is, or that it bounds, under a relation. -/
def Relation.halfPlanes (r : Relation) (l : Line K) : List (Line K) :=
  match r with
  | le => [l]
  | ge => [l.flip]
  | eq => [l, l.flip]

omit [LinearOrder K] in
theorem Relation.mem_halfPlanes {r : Relation} {l h : Line K} (hh : h ∈ r.halfPlanes l) :
    h = l ∨ h = l.flip := by
  cases r with
  | le => exact .inl (List.mem_singleton.mp hh)
  | ge => exact .inr (List.mem_singleton.mp hh)
  | eq => simpa [halfPlanes] using hh

namespace Line

theorem meet?_comm {l m : Line K} {v : Point K} (hdet : l.det m ≠ 0) :
    l.meet? m = some v ↔ m.meet? l = some v := by
  have hdet' : m.det l ≠ 0 := by rwa [det_swap, neg_ne_zero]
  rw [meet?_eq_some_iff hdet, meet?_eq_some_iff hdet', det_swap l m, abs_neg,
    and_comm (a := _ = m.c)]

theorem mem_meets {l m : Line K} {v : Point K} (hdet : l.det m ≠ 0) (h : l.meet? m = some v)
    {lines : List (Line K)} (hl : l ∈ lines) (hm : m ∈ lines) : v ∈ meets lines := by
  induction lines with
  | nil => exact absurd hl List.not_mem_nil
  | cons k rest ih =>
    rw [meets, List.mem_append, List.mem_filterMap]
    rcases List.mem_cons.mp hl with rfl | hlrest
    · rcases List.mem_cons.mp hm with rfl | hmrest
      · exact absurd (det_self _) hdet
      · exact .inl ⟨m, hmrest, h⟩
    · rcases List.mem_cons.mp hm with rfl | hmrest
      · exact .inl ⟨l, hlrest, (meet?_comm hdet).mp h⟩
      · exact .inr (ih hlrest hmrest)

end Line

namespace Problem

/-- The boundaries of the region: the axes and the lines of the constraints. -/
def lines (p : Problem K) : List (Line K) := Line.yAxis :: Line.xAxis :: p.boundaries

/-- The half-planes that cut out the region. -/
def halfPlanes (p : Problem K) : List (Line K) :=
  Line.yAxis.flip :: Line.xAxis.flip ::
    p.constraints.flatMap fun c => c.relation.halfPlanes c.boundary

/-- Any two boundaries are parallel or far from it. -/
def Separated (p : Problem K) : Prop :=
  ∀ l ∈ p.lines, ∀ m ∈ p.lines, l.det m = 0 ∨ Line.parallelTolerance ≤ |l.det m|

instance (p : Problem K) : Decidable p.Separated :=
  inferInstanceAs (Decidable
    (∀ l ∈ p.lines, ∀ m ∈ p.lines, l.det m = 0 ∨ Line.parallelTolerance ≤ |l.det m|))

variable {p : Problem K}

theorem yAxis_mem_halfPlanes (p : Problem K) : Line.yAxis.flip ∈ p.halfPlanes :=
  List.mem_cons_self

theorem xAxis_mem_halfPlanes (p : Problem K) : Line.xAxis.flip ∈ p.halfPlanes :=
  List.mem_cons_of_mem _ List.mem_cons_self

theorem exists_line_of_mem_halfPlanes {h : Line K} (hh : h ∈ p.halfPlanes) :
    ∃ l ∈ p.lines, h = l ∨ h = l.flip := by
  rw [halfPlanes, List.mem_cons, List.mem_cons, List.mem_flatMap] at hh
  rcases hh with rfl | rfl | ⟨c, hc, hh⟩
  · exact ⟨Line.yAxis, by simp [lines], .inr rfl⟩
  · exact ⟨Line.xAxis, by simp [lines], .inr rfl⟩
  · refine ⟨c.boundary, ?_, Relation.mem_halfPlanes hh⟩
    exact List.mem_cons_of_mem _ (List.mem_cons_of_mem _ (List.mem_map_of_mem hc))

theorem exists_halfPlane_of_mem_lines {l : Line K} (hl : l ∈ p.lines) :
    ∃ h ∈ p.halfPlanes, h = l ∨ h = l.flip := by
  rw [lines, List.mem_cons, List.mem_cons, boundaries, List.mem_map] at hl
  rcases hl with rfl | rfl | ⟨c, hc, rfl⟩
  · exact ⟨_, p.yAxis_mem_halfPlanes, .inr rfl⟩
  · exact ⟨_, p.xAxis_mem_halfPlanes, .inr rfl⟩
  · have hmem {h : Line K} (hh : h ∈ c.relation.halfPlanes c.boundary) : h ∈ p.halfPlanes :=
      List.mem_cons_of_mem _ (List.mem_cons_of_mem _ (List.mem_flatMap.mpr ⟨c, hc, hh⟩))
    obtain ⟨h, hh⟩ : ∃ h, h ∈ c.relation.halfPlanes c.boundary := by
      cases c.relation <;> simp [Relation.halfPlanes]
    exact ⟨h, hmem hh, Relation.mem_halfPlanes hh⟩

theorem meet?_mem_candidateVertices {l m : Line K} {v : Point K} (hdet : l.det m ≠ 0)
    (h : l.meet? m = some v) (hl : l ∈ p.boundaries) (hm : m ∈ p.lines) :
    v ∈ p.candidateVertices := by
  rw [candidateVertices, List.mem_append, List.mem_append]
  refine .inl ?_
  rw [lines, List.mem_cons, List.mem_cons] at hm
  rcases hm with rfl | rfl | hm
  · exact .inr (List.mem_flatMap.mpr ⟨l, hl, List.mem_filterMap.mpr ⟨Line.yAxis, by simp, h⟩⟩)
  · exact .inr (List.mem_flatMap.mpr ⟨l, hl, List.mem_filterMap.mpr ⟨Line.xAxis, by simp, h⟩⟩)
  · exact .inl (Line.mem_meets hdet h hl hm)

theorem origin_mem_candidateVertices (p : Problem K) : Point.origin ∈ p.candidateVertices := by
  simp [candidateVertices]

/-- Every point where two boundaries meet is a candidate. -/
theorem mem_candidateVertices (hsep : p.Separated) {l m : Line K} {v : Point K} (hl : l ∈ p.lines)
    (hm : m ∈ p.lines) (hdet : l.det m ≠ 0) (hlv : l.valueAt v = l.c) (hmv : m.valueAt v = m.c) :
    v ∈ p.candidateVertices := by
  have hmeet : l.meet? m = some v :=
    (Line.meet?_eq_some_iff hdet).mpr ⟨(hsep l hl m hm).resolve_left hdet, hlv, hmv⟩
  have haxis {k : Line K} (hk : k ∈ p.lines) :
      k ∈ p.boundaries ∨ k = Line.yAxis ∨ k = Line.xAxis := by
    rw [lines, List.mem_cons, List.mem_cons] at hk
    tauto
  rcases haxis hl with hlb | hla
  · exact meet?_mem_candidateVertices hdet hmeet hlb hm
  rcases haxis hm with hmb | hma
  · refine meet?_mem_candidateVertices ?_ ((Line.meet?_comm hdet).mp hmeet) hmb hl
    rwa [Line.det_swap, neg_ne_zero]
  · suffices hv : v = Point.origin by
      rw [hv]
      exact p.origin_mem_candidateVertices
    obtain ⟨x, y⟩ := v
    rcases hla with rfl | rfl <;> rcases hma with rfl | rfl <;>
      simp_all [Line.det, Line.valueAt, Line.xAxis, Line.yAxis, Point.origin]

end Problem

variable [IsStrictOrderedRing K]

namespace Line

/-- A line does not meet itself, so pairs of equal lines may be left out or put in. -/
theorem mem_meets_iff {lines : List (Line K)} {v : Point K} :
    v ∈ meets lines ↔ ∃ l ∈ lines, ∃ m ∈ lines, l.meet? m = some v := by
  constructor
  · intro h
    induction lines with
    | nil => exact absurd h List.not_mem_nil
    | cons k rest ih =>
      rw [meets, List.mem_append, List.mem_filterMap] at h
      rcases h with ⟨m, hm, hmeet⟩ | h
      · exact ⟨k, List.mem_cons_self, m, List.mem_cons_of_mem _ hm, hmeet⟩
      · obtain ⟨l, hl, m, hm, hmeet⟩ := ih h
        exact ⟨l, List.mem_cons_of_mem _ hl, m, List.mem_cons_of_mem _ hm, hmeet⟩
  · rintro ⟨l, hl, m, hm, hmeet⟩
    exact mem_meets (det_ne_zero_of_meet? hmeet) hmeet hl hm

end Line

theorem Relation.holds_iff_inside (r : Relation) (l : Line K) (v : Point K) :
    r.Holds (l.valueAt v) l.c ↔ Inside (r.halfPlanes l) v := by
  cases r <;> simp [Holds, halfPlanes, Inside, le_antisymm_iff]

theorem Relation.holds_iff_recedes (r : Relation) (l : Line K) (d : Point K) :
    r.Holds (l.valueAt d) 0 ↔ Recedes (r.halfPlanes l) d := by
  cases r <;> simp [Holds, halfPlanes, Recedes, le_antisymm_iff]

namespace Problem
variable {p : Problem K}

theorem inside_halfPlanes_iff {v : Point K} : Inside p.halfPlanes v ↔ 0 ≤ v.x ∧ 0 ≤ v.y ∧
    ∀ c ∈ p.constraints, c.relation.Holds (c.boundary.valueAt v) c.rhs := by
  have hrow (c : Constraint K) : c.relation.Holds (c.boundary.valueAt v) c.rhs ↔
      Inside (c.relation.halfPlanes c.boundary) v := c.relation.holds_iff_inside c.boundary v
  simp only [hrow]
  simp only [Inside, halfPlanes, List.forall_mem_cons, List.forall_mem_flatMap]
  simp [Line.valueAt, Line.flip, Line.yAxis, Line.xAxis]

theorem recedes_halfPlanes_iff {d : Point K} : Recedes p.halfPlanes d ↔ 0 ≤ d.x ∧ 0 ≤ d.y ∧
    ∀ c ∈ p.constraints, c.relation.Holds (c.boundary.valueAt d) 0 := by
  simp only [Relation.holds_iff_recedes]
  simp only [Recedes, halfPlanes, List.forall_mem_cons, List.forall_mem_flatMap]
  simp [Line.valueAt, Line.flip, Line.yAxis, Line.xAxis]

/-- The test for vertices without a tolerance says which points lie in the region. -/
theorem feasible_iff_inside {v : Point K} :
    v.feasible 0 p.constraints = true ↔ Inside p.halfPlanes v := by
  have hfeasible : v.feasible 0 p.constraints =
      if v.x < -0 || v.y < -0 then false
      else p.constraints.all fun c => c.relation.holds (c.boundary.valueAt v) c.rhs 0 := rfl
  rw [hfeasible, inside_halfPlanes_iff]
  simp [Relation.holds_zero_iff, and_assoc]

theorem recedesAlong_iff {d : Point K} : p.recedesAlong 0 d = true ↔
    ∀ c ∈ p.constraints, c.relation.Holds (c.boundary.valueAt d) 0 := by
  simp [recedesAlong, Relation.holds_zero_iff]

omit [IsStrictOrderedRing K] in
theorem dot_toList (hp : p.validate = .ok ()) (hsize : p.size = 2) {c : Constraint K}
    (hc : c ∈ p.constraints) (v : Point K) :
    Scalar.dot c.coefficients v.toList = c.boundary.valueAt v := by
  rw [Scalar.dot_exact ((validate_exact.mp hp).2 c hc).le, hsize]
  simp [Finset.sum_range_succ, Point.toList, Constraint.boundary, Line.valueAt]

omit [IsStrictOrderedRing K] in
/-- In two variables the test for vertices is the test for points that satisfy the problem. -/
theorem satisfiedBy_toList (hp : p.validate = .ok ()) (hsize : p.size = 2) (v : Point K) (t : K) :
    p.satisfiedBy v.toList t = v.feasible t p.constraints := by
  have hrows : (∀ c ∈ p.constraints, c.holdsAt v.toList t = true) ↔
      ∀ c ∈ p.constraints, c.relation.holds (c.boundary.valueAt v) c.rhs t = true := by
    refine forall₂_congr fun c hc => ?_
    rw [Constraint.holdsAt, dot_toList hp hsize hc]
  rw [Bool.eq_iff_iff, satisfiedBy, Point.feasible]
  simp [hsize, Point.toList, ← hrows, and_assoc]

theorem isFeasible_toList (hp : p.validate = .ok ()) (hsize : p.size = 2) {v : Point K} :
    p.IsFeasible v.toList ↔ Inside p.halfPlanes v := by
  rw [IsFeasible, satisfiedBy_toList hp hsize, feasible_iff_inside]

theorem exists_toList {x : List K} (hsize : p.size = 2) (hx : p.IsFeasible x) :
    ∃ v : Point K, x = v.toList := by
  have hlen := ((isFeasible_iff p x).mp hx).1.trans hsize
  obtain ⟨a, b, rfl⟩ := List.length_eq_two.mp hlen
  exact ⟨⟨a, b⟩, rfl⟩

/-- Every candidate is a point where two boundaries meet. -/
theorem exists_lines_of_mem_candidateVertices {v : Point K} (hv : v ∈ p.candidateVertices) :
    ∃ l ∈ p.lines, ∃ m ∈ p.lines, l.det m ≠ 0 ∧ l.valueAt v = l.c ∧ m.valueAt v = m.c := by
  have hmeets {l m : Line K} (h : l.meet? m = some v) :
      l.det m ≠ 0 ∧ l.valueAt v = l.c ∧ m.valueAt v = m.c :=
    ⟨Line.det_ne_zero_of_meet? h, Line.valueAt_of_meet? h⟩
  have hboundary {l : Line K} (hl : l ∈ p.boundaries) : l ∈ p.lines :=
    List.mem_cons_of_mem _ (List.mem_cons_of_mem _ hl)
  rw [candidateVertices, List.mem_append, List.mem_append, Line.mem_meets_iff] at hv
  rcases hv with (⟨l, hl, m, hm, h⟩ | hv) | hv
  · exact ⟨l, hboundary hl, m, hboundary hm, hmeets h⟩
  · obtain ⟨l, hl, hv⟩ := List.mem_flatMap.mp hv
    obtain ⟨m, hm, h⟩ := List.mem_filterMap.mp hv
    refine ⟨l, hboundary hl, m, ?_, hmeets h⟩
    rw [lines]
    rcases List.mem_pair.mp hm with rfl | rfl <;> simp
  · rw [List.mem_singleton.mp hv]
    refine ⟨Line.yAxis, by simp [lines], Line.xAxis, by simp [lines], ?_⟩
    simp [Line.det, Line.valueAt, Line.xAxis, Line.yAxis, Point.origin]

/-- A candidate inside the region is a corner of it. -/
theorem isCorner_of_mem_candidateVertices {v : Point K} (hv : v ∈ p.candidateVertices)
    (hinside : Inside p.halfPlanes v) : IsCorner p.halfPlanes v := by
  obtain ⟨l, hl, m, hm, hdet, hlv, hmv⟩ := exists_lines_of_mem_candidateVertices hv
  obtain ⟨h, hh, hhl⟩ := exists_halfPlane_of_mem_lines hl
  obtain ⟨k, hk, hkm⟩ := exists_halfPlane_of_mem_lines hm
  refine ⟨hinside, h, hh, k, hk, ?_, ?_, ?_⟩
  · rcases hhl with rfl | rfl <;> rcases hkm with rfl | rfl <;> simpa using hdet
  · rcases hhl with rfl | rfl <;> simpa using hlv
  · rcases hkm with rfl | rfl <;> simpa using hmv

/-- Every corner of the region is a vertex that the method finds. -/
theorem mem_feasibleVertices_of_isCorner (hsep : p.Separated) {w : Point K}
    (hw : IsCorner p.halfPlanes w) : w ∈ p.feasibleVertices 0 := by
  obtain ⟨h, hh, k, hk, hdet, hhw, hkw⟩ := hw.tight
  obtain ⟨l, hl, hhl⟩ := exists_line_of_mem_halfPlanes hh
  obtain ⟨m, hm, hkm⟩ := exists_line_of_mem_halfPlanes hk
  have htight {h l : Line K} (hhl : h = l ∨ h = l.flip) (hhw : h.valueAt w = h.c) :
      l.valueAt w = l.c := by
    rcases hhl with rfl | rfl
    · exact hhw
    · simpa using hhw
  rw [feasibleVertices, List.mem_filter]
  have hdetlm : l.det m ≠ 0 := by
    rcases hhl with rfl | rfl <;> rcases hkm with rfl | rfl <;> simpa using hdet
  exact ⟨mem_candidateVertices hsep hl hm hdetlm (htight hhl hhw) (htight hkm hkw),
    feasible_iff_inside.mpr hw.inside⟩

end Problem
end LinProg
