import LinProg.Plane.Segment
import LinProg.Proofs.Plane.Distinct
import LinProg.Proofs.Plane.HalfPlane
import LinProg.Proofs.Scalar.Rational
import Mathlib.Data.List.Pairwise

/-!
# Clipped boundaries

The boundary of a constraint is drawn inside a viewport. Whoever follows it from a point in there
comes to a border, so it crosses the borders on either side of all its points in the viewport, and
each of these crossings is kept or near to one that is. Among the kept ones the segment runs from
the first to the last by their coordinates, which is the order along the line. Nothing is assumed
of the viewport: it may lie outside the first quadrant or be empty.
-/
namespace LinProg
variable {K : Type} [Field K] [LinearOrder K]

namespace Point

/-- The direction leads to the right, or straight up. -/
def Rightward (e : Point K) : Prop := 0 < e.x ∨ e.x = 0 ∧ 0 < e.y

/-- The point that divides the way from one point to another at a fraction of its length. -/
def toward (p q : Point K) (t : K) : Point K := p.move (p.vectorTo q) t

theorem lexLe_iff (p q : Point K) :
    p.lexLe q = true ↔ p.x < q.x ∨ p.x = q.x ∧ p.y ≤ q.y := by
  simp [lexLe]

theorem lexLe_refl (p : Point K) : p.lexLe p = true := (lexLe_iff p p).mpr (.inr ⟨rfl, le_rfl⟩)

variable [IsStrictOrderedRing K]

/-- The points that can be reached in a direction or its reverse. -/
theorem Rightward.exists_eq_move {e : Point K} (he : e.Rightward) {u w : Point K}
    (h : e.y * (w.x - u.x) = e.x * (w.y - u.y)) : ∃ t, w = u.move e t := by
  obtain ⟨x, y⟩ := w
  rcases he with hx | ⟨hx, hy⟩
  · refine ⟨(x - u.x) / e.x, ?_⟩
    rw [move, Point.mk.injEq, div_mul_cancel₀ _ hx.ne']
    refine ⟨(add_sub_cancel _ _).symm, ?_⟩
    rw [div_mul_eq_mul_div, mul_comm (x - u.x), h, mul_div_cancel_left₀ _ hx.ne', add_sub_cancel]
  · refine ⟨(y - u.y) / e.y, ?_⟩
    rw [hx, zero_mul] at h
    have hxu : x = u.x := sub_eq_zero.mp ((mul_eq_zero.mp h).resolve_left hy.ne')
    rw [move, Point.mk.injEq, div_mul_cancel₀ _ hy.ne', hx, mul_zero, add_zero]
    exact ⟨hxu, (add_sub_cancel _ _).symm⟩

/-- Along a direction to the right, points are in the order of their coordinates. -/
theorem Rightward.lexLe_move_iff {e : Point K} (he : e.Rightward) (m : Point K) (s t : K) :
    (m.move e s).lexLe (m.move e t) = true ↔ s ≤ t := by
  rw [lexLe_iff]
  simp only [move, add_lt_add_iff_left, add_right_inj, add_le_add_iff_left]
  rcases he with hx | ⟨hx, hy⟩
  · rw [mul_lt_mul_iff_left₀ hx, mul_left_inj' hx.ne']
    constructor
    · rintro (h | ⟨rfl, -⟩)
      · exact h.le
      · exact le_rfl
    · intro h
      rcases h.lt_or_eq with h | rfl
      · exact .inl h
      · exact .inr ⟨rfl, le_rfl⟩
  · simp [hx, mul_le_mul_iff_left₀ hy]

omit [LinearOrder K] [IsStrictOrderedRing K] in
theorem toward_move (m e : Point K) (s t r : K) :
    (m.move e s).toward (m.move e t) r = m.move e (s + r * (t - s)) := by
  simp only [toward, vectorTo, move, mk.injEq]
  constructor <;> ring

theorem near_move_iff (tolerance : K) (m e : Point K) (s t : K) :
    (m.move e s).near tolerance (m.move e t) = true ↔
      |s - t| * |e.x| ≤ tolerance ∧ |s - t| * |e.y| ≤ tolerance := by
  have hx : m.x + s * e.x - (m.x + t * e.x) = (s - t) * e.x := by ring
  have hy : m.y + s * e.y - (m.y + t * e.y) = (s - t) * e.y := by ring
  rw [near_iff]
  simp only [move, hx, hy, abs_mul]

/-- On a line, what is no further apart than points that are near is near. -/
theorem near_move_of_le {tolerance : K} {m e : Point K} {s t s' t' : K}
    (h : (m.move e s).near tolerance (m.move e t) = true) (hle : |s' - t'| ≤ |s - t|) :
    (m.move e s').near tolerance (m.move e t') = true := by
  rw [near_move_iff] at h ⊢
  exact ⟨(mul_le_mul_of_nonneg_right hle (abs_nonneg _)).trans h.1,
    (mul_le_mul_of_nonneg_right hle (abs_nonneg _)).trans h.2⟩

end Point

/-- Zero divides the way between two numbers on either side of it. -/
theorem exists_fraction [IsStrictOrderedRing K] {a b : K} (ha : a ≤ 0) (hb : 0 ≤ b) :
    ∃ t, 0 ≤ t ∧ t ≤ 1 ∧ a + t * (b - a) = 0 := by
  have hlength : 0 ≤ b - a := by linarith
  refine ⟨-a / (b - a), div_nonneg (neg_nonneg.mpr ha) hlength,
    div_le_one_of_le₀ (by linarith) hlength, ?_⟩
  rcases hlength.eq_or_lt with heq | hlt
  · rw [← heq, mul_zero, add_zero]
    linarith
  · rw [div_mul_cancel₀ _ hlt.ne', add_neg_cancel]

namespace Viewport
variable {v : Viewport K}

/-- The half-planes that cut out a viewport. -/
def halfPlanes (v : Viewport K) : List (Line K) :=
  [Line.yAxis.flip, Line.xAxis.flip, ⟨1, 0, v.width⟩, ⟨0, 1, v.height⟩]

theorem exists_border_of_mem_halfPlanes {h : Line K} (hh : h ∈ v.halfPlanes) :
    ∃ k ∈ v.borders, h = k ∨ h = k.flip := by
  simp only [halfPlanes, List.mem_cons, List.not_mem_nil, or_false] at hh
  rcases hh with rfl | rfl | rfl | rfl
  · exact ⟨Line.yAxis, by simp [borders], .inr rfl⟩
  · exact ⟨Line.xAxis, by simp [borders], .inr rfl⟩
  · exact ⟨⟨1, 0, v.width⟩, by simp [borders], .inl rfl⟩
  · exact ⟨⟨0, 1, v.height⟩, by simp [borders], .inl rfl⟩

theorem contains_iff (v : Viewport K) (tolerance : K) (m : Point K) :
    v.contains tolerance m = true ↔ (-tolerance ≤ m.x ∧ m.x ≤ v.width + tolerance) ∧
      -tolerance ≤ m.y ∧ m.y ≤ v.height + tolerance := by
  simp [contains, and_assoc]

variable [IsStrictOrderedRing K]

theorem inside_halfPlanes_iff {m : Point K} : Inside v.halfPlanes m ↔ v.contains 0 m = true := by
  rw [contains_iff]
  simp [Inside, halfPlanes, Line.valueAt, Line.flip, Line.yAxis, Line.xAxis]
  tauto

theorem contains_mono {m : Point K} (h : v.contains 0 m = true) :
    v.contains Point.sameTolerance m = true := by
  have hpos := Point.sameTolerance_pos (K := K)
  rw [contains_iff] at h ⊢
  refine ⟨⟨?_, ?_⟩, ?_, ?_⟩ <;> linarith [h.1.1, h.1.2, h.2.1, h.2.2]

end Viewport

namespace Line
variable {l : Line K}

/-- The line is parallel to an axis or far from it. -/
def SeparatedFromAxes (l : Line K) : Prop :=
  (l.a = 0 ∨ parallelTolerance ≤ |l.a|) ∧ (l.b = 0 ∨ parallelTolerance ≤ |l.b|)

theorem SeparatedFromAxes.det_border (h : l.SeparatedFromAxes) {v : Viewport K} {k : Line K}
    (hk : k ∈ v.borders) : l.det k = 0 ∨ parallelTolerance ≤ |l.det k| := by
  simp only [Viewport.borders, List.mem_cons, List.not_mem_nil, or_false] at hk
  rcases hk with rfl | rfl | rfl | rfl
  · simpa [det, yAxis] using h.2
  · simpa [det, xAxis] using h.1
  · simpa [det] using h.2
  · simpa [det] using h.1

variable [IsStrictOrderedRing K]

theorem exists_rightward (h : l.a ≠ 0 ∨ l.b ≠ 0) :
    ∃ e, (e = l.along ∨ e = l.along.reverse) ∧ e.Rightward := by
  rcases lt_trichotomy l.b 0 with hb | hb | hb
  · exact ⟨_, .inr rfl, .inl (neg_pos.mpr hb)⟩
  · rcases (h.resolve_right (not_not_intro hb)).lt_or_gt with ha | ha
    · exact ⟨_, .inl rfl, .inr ⟨hb, neg_pos.mpr ha⟩⟩
    · refine ⟨_, .inr rfl, .inr ⟨neg_eq_zero.mpr hb, ?_⟩⟩
      simpa [along, Point.reverse] using ha
  · exact ⟨_, .inl rfl, .inl hb⟩

/-- Two points of a line are apart in its direction. -/
theorem exists_eq_move {e : Point K} (he : e = l.along ∨ e = l.along.reverse)
    (hright : e.Rightward) {u w : Point K} (h : l.valueAt w = l.valueAt u) :
    ∃ t, w = u.move e t := by
  simp only [valueAt] at h
  refine hright.exists_eq_move ?_
  rcases he with rfl | rfl
  · simp only [along]
    linear_combination -h
  · simp only [along, Point.reverse]
    linear_combination h

/-- Who follows a line inside a viewport comes to a border. -/
theorem exists_move_on_border (hl : l.SeparatedFromAxes) {v : Viewport K} {e m : Point K}
    (he : e = l.along ∨ e = l.along.reverse) (hne : l.a ≠ 0 ∨ l.b ≠ 0)
    (hm : l.valueAt m = l.c) (hin : v.contains 0 m = true) :
    ∃ t, 0 ≤ t ∧ v.contains 0 (m.move e t) = true ∧
      ∃ k ∈ v.borders, l.meet? k = some (m.move e t) := by
  rcases recedes_or_exists_tight (Viewport.inside_halfPlanes_iff.mpr hin) e with
    hrec | ⟨t, ht, hin, h, hh, hleaves, htight⟩
  · -- a viewport is bounded on all sides, so that no direction recedes
    exfalso
    simp only [Recedes, Viewport.halfPlanes, List.forall_mem_cons, valueAt, flip, yAxis,
      xAxis] at hrec
    have hx : e.x = 0 := by linarith [hrec.1, hrec.2.2.1]
    have hy : e.y = 0 := by linarith [hrec.2.1, hrec.2.2.2.1]
    rcases he with rfl | rfl <;> simp_all [along, Point.reverse]
  · obtain ⟨k, hk, hhk⟩ := Viewport.exists_border_of_mem_halfPlanes hh
    have hkm : k.valueAt e ≠ 0 ∧ k.valueAt (m.move e t) = k.c := by
      rcases hhk with rfl | rfl
      · exact ⟨hleaves.ne', htight⟩
      · rw [valueAt_flip] at hleaves htight
        exact ⟨(neg_pos.mp hleaves).ne, neg_inj.mp htight⟩
    have hdet : l.det k ≠ 0 := fun hdet => hkm.1 <| by
      rcases valueAt_direction he k with h | h <;> simp [h, hdet]
    refine ⟨t, ht, Viewport.inside_halfPlanes_iff.mp hin, k, hk, (meet?_eq_some_iff hdet).mpr
      ⟨(hl.det_border hk).resolve_left hdet, ?_, hkm.2⟩⟩
    rw [valueAt_move, valueAt_direction_self he, mul_zero, add_zero, hm]

end Line

namespace Constraint
variable {c : Constraint K} {v : Viewport K}

/-- The points where the boundary crosses a border, before they are thinned. -/
def borderPoints (c : Constraint K) (v : Viewport K) : List (Point K) :=
  (v.borders.filterMap c.boundary.meet?).filter (v.contains Point.sameTolerance)

theorem crossings_perm (c : Constraint K) (v : Viewport K) :
    (c.crossings v).Perm (Point.distinct Point.sameTolerance (c.borderPoints v)) :=
  List.mergeSort_perm _ _

theorem pairwise_lexLe_crossings (c : Constraint K) (v : Viewport K) :
    (c.crossings v).Pairwise fun p q => p.lexLe q = true := by
  refine List.pairwise_mergeSort (fun p q r hpq hqr => ?_) (fun p q => ?_) _
  · rw [Point.lexLe_iff] at hpq hqr ⊢
    rcases hpq with hpq | ⟨hpq, hpq'⟩ <;> rcases hqr with hqr | ⟨hqr, hqr'⟩
    · exact .inl (hpq.trans hqr)
    · exact .inl (hpq.trans_eq hqr)
    · exact .inl (hpq.trans_lt hqr)
    · exact .inr ⟨hpq.trans hqr, hpq'.trans hqr'⟩
  · rw [Bool.or_eq_true, Point.lexLe_iff, Point.lexLe_iff]
    rcases lt_trichotomy p.x q.x with h | h | h
    · exact .inl (.inl h)
    · exact (le_total p.y q.y).imp (fun hy => .inr ⟨h, hy⟩) fun hy => .inr ⟨h.symm, hy⟩
    · exact .inr (.inl h)

theorem pairwise_apart_crossings (c : Constraint K) (v : Viewport K) :
    (c.crossings v).Pairwise (Point.Apart Point.sameTolerance) := by
  have hsymm {p q : Point K} (h : p.Apart Point.sameTolerance q) :
      q.Apart Point.sameTolerance p := (Point.near_comm abs_sub_comm _ q p).trans h
  exact ((c.crossings_perm v).pairwise_iff hsymm).mpr (Point.pairwise_distinct _ _)

/-- The segment runs from the first crossing to the last. -/
theorem segment?_eq_some {p q : Point K} (h : c.segment? v = some (p, q)) :
    p ∈ c.crossings v ∧ q ∈ c.crossings v ∧ p.near Point.sameTolerance q = false ∧
      ∀ w ∈ c.crossings v, p.lexLe w = true ∧ w.lexLe q = true := by
  have hsorted := c.pairwise_lexLe_crossings v
  have hapart := c.pairwise_apart_crossings v
  rw [segment?] at h
  split at h
  · next first second rest heq =>
    cases h
    rw [heq] at hsorted hapart ⊢
    have hlast : (second :: rest).getLast (by simp) ∈ second :: rest := List.getLast_mem _
    refine ⟨List.mem_cons_self, List.mem_cons_of_mem _ hlast,
      (List.pairwise_cons.mp hapart).1 _ hlast, fun w hw => ⟨?_, ?_⟩⟩
    · exact hsorted.rel_head_of_rel_head_head hw (Point.lexLe_refl _)
    · have hle := hsorted.rel_getLast_of_rel_getLast_getLast hw (Point.lexLe_refl _)
      rwa [List.getLast_cons (by simp)] at hle
  · cases h

/-- Where no segment is drawn there are no two crossings. -/
theorem segment?_eq_none (h : c.segment? v = none) {p q : Point K} (hp : p ∈ c.crossings v)
    (hq : q ∈ c.crossings v) : p = q := by
  rw [segment?] at h
  split at h
  · cases h
  · next hshort =>
    match hcrossings : c.crossings v with
    | [] => simp [hcrossings] at hp
    | [w] =>
      rw [hcrossings, List.mem_singleton] at hp hq
      rw [hp, hq]
    | first :: second :: rest => exact absurd hcrossings (hshort first second rest)

variable [IsStrictOrderedRing K]

omit [IsStrictOrderedRing K] in
theorem exists_meet?_of_mem_crossings {w : Point K} (hw : w ∈ c.crossings v) :
    v.contains Point.sameTolerance w = true ∧ ∃ k ∈ v.borders, c.boundary.meet? k = some w := by
  have hmem := (Point.distinct_sublist _ _).subset ((c.crossings_perm v).mem_iff.mp hw)
  obtain ⟨hmeets, hcontains⟩ := List.mem_filter.mp hmem
  exact ⟨hcontains, List.mem_filterMap.mp hmeets⟩

theorem of_mem_crossings {w : Point K} (hw : w ∈ c.crossings v) :
    c.boundary.valueAt w = c.rhs ∧ v.contains Point.sameTolerance w = true := by
  obtain ⟨hcontains, k, _, hmeet⟩ := exists_meet?_of_mem_crossings hw
  exact ⟨(Line.valueAt_of_meet? hmeet).1, hcontains⟩

theorem ne_zero_of_mem_crossings {w : Point K} (hw : w ∈ c.crossings v) :
    c.boundary.a ≠ 0 ∨ c.boundary.b ≠ 0 := by
  obtain ⟨_, k, _, hmeet⟩ := exists_meet?_of_mem_crossings hw
  by_contra h
  obtain ⟨ha, hb⟩ := not_or.mp h
  exact Line.det_ne_zero_of_meet? hmeet
    (by rw [Line.det, not_not.mp ha, not_not.mp hb, zero_mul, mul_zero, sub_zero])

/-- Every border point is near to a crossing, if only to itself. -/
theorem exists_near_crossing {w : Point K} (hw : w ∈ c.borderPoints v) :
    ∃ k ∈ c.crossings v, k.near Point.sameTolerance w = true := by
  simp only [(c.crossings_perm v).mem_iff]
  rcases Point.mem_or_near_distinct Point.sameTolerance hw with hmem | hnear
  · exact ⟨w, hmem, w.near_self⟩
  · exact hnear

/-- On either side of a point inside the viewport there is a crossing, up to the tolerance. -/
theorem exists_crossing_move (hl : c.boundary.SeparatedFromAxes) {e m : Point K}
    (he : e = c.boundary.along ∨ e = c.boundary.along.reverse)
    (hne : c.boundary.a ≠ 0 ∨ c.boundary.b ≠ 0)
    (hm : c.boundary.valueAt m = c.boundary.c) (hin : v.contains 0 m = true) :
    ∃ t, 0 ≤ t ∧ ∃ k ∈ c.crossings v, k.near Point.sameTolerance (m.move e t) = true := by
  obtain ⟨t, ht, hcontains, k, hk, hmeet⟩ := Line.exists_move_on_border hl he hne hm hin
  exact ⟨t, ht, exists_near_crossing (List.mem_filter.mpr
    ⟨List.mem_filterMap.mpr ⟨k, hk, hmeet⟩, Viewport.contains_mono hcontains⟩)⟩

/-- The point is on the boundary and inside the viewport. -/
def Visible (c : Constraint K) (v : Viewport K) (m : Point K) : Prop :=
  c.boundary.valueAt m = c.rhs ∧ v.contains 0 m = true

theorem Visible.exists_eq_move {m w e : Point K} (hm : c.Visible v m)
    (he : e = c.boundary.along ∨ e = c.boundary.along.reverse) (hright : e.Rightward)
    (hw : w ∈ c.crossings v) : ∃ t, w = m.move e t :=
  Line.exists_eq_move he hright ((of_mem_crossings hw).1.trans hm.1.symm)

/-- Along the boundary, a crossing stands behind each visible point and one stands ahead of it, up
to the tolerance. -/
theorem Visible.exists_crossings (hl : c.boundary.SeparatedFromAxes)
    (hne : c.boundary.a ≠ 0 ∨ c.boundary.b ≠ 0) {m e : Point K} (hm : c.Visible v m)
    (he : e = c.boundary.along ∨ e = c.boundary.along.reverse) (hright : e.Rightward) :
    ∃ behind ahead, m.move e behind ∈ c.crossings v ∧ m.move e ahead ∈ c.crossings v ∧
      (∃ t, t ≤ 0 ∧ (m.move e behind).near Point.sameTolerance (m.move e t) = true) ∧
      ∃ t, 0 ≤ t ∧ (m.move e ahead).near Point.sameTolerance (m.move e t) = true := by
  have hback : e.reverse = c.boundary.along ∨ e.reverse = c.boundary.along.reverse := by
    rcases he with rfl | rfl
    · exact .inr rfl
    · exact .inl (Line.reverse_reverse _)
  obtain ⟨s, hs, k, hk, hks⟩ := exists_crossing_move hl hback hne hm.1 hm.2
  obtain ⟨t, ht, k', hk', hkt⟩ := exists_crossing_move hl he hne hm.1 hm.2
  obtain ⟨behind, rfl⟩ := hm.exists_eq_move he hright hk
  obtain ⟨ahead, rfl⟩ := hm.exists_eq_move he hright hk'
  rw [Point.move_reverse] at hks
  exact ⟨behind, ahead, hk, hk', ⟨-s, neg_nonpos.mpr hs, hks⟩, t, ht, hkt⟩

/-- What is visible is drawn up to the tolerance: the segment passes through a visible point or ends
near to it. -/
theorem exists_near_toward (hl : c.boundary.SeparatedFromAxes)
    (hne : c.boundary.a ≠ 0 ∨ c.boundary.b ≠ 0) {p q : Point K}
    (h : c.segment? v = some (p, q)) {m : Point K} (hm : c.Visible v m) :
    ∃ t, 0 ≤ t ∧ t ≤ 1 ∧ m.near Point.sameTolerance (p.toward q t) = true := by
  obtain ⟨hp, hq, _, hbetween⟩ := segment?_eq_some h
  obtain ⟨e, he, hright⟩ := Line.exists_rightward hne
  obtain ⟨first, rfl⟩ := hm.exists_eq_move he hright hp
  obtain ⟨last, rfl⟩ := hm.exists_eq_move he hright hq
  have hinside {t : K} (ht : m.move e t ∈ c.crossings v) : first ≤ t ∧ t ≤ last :=
    (hbetween _ ht).imp (hright.lexLe_move_iff m _ _).mp (hright.lexLe_move_iff m _ _).mp
  obtain ⟨behind, ahead, hbehind, hahead, ⟨s, hs, hnears⟩, t, ht, hneart⟩ :=
    hm.exists_crossings hl hne he hright
  simp only [Point.toward_move]
  rcases lt_or_ge 0 first with hfirst | hfirst
  · -- the segment begins ahead of the point, and so does the crossing for the border behind it
    have hle : |0 - first| ≤ |behind - s| := by
      rw [zero_sub, abs_neg, abs_of_pos hfirst]
      exact le_trans (by linarith [(hinside hbehind).1]) (le_abs_self _)
    have hclose := Point.near_move_of_le hnears hle
    rw [Point.move_zero] at hclose
    exact ⟨0, le_rfl, zero_le_one, by rwa [zero_mul, add_zero]⟩
  rcases lt_or_ge last 0 with hlast | hlast
  · have hle : |0 - last| ≤ |ahead - t| := by
      rw [zero_sub, abs_neg, abs_of_neg hlast]
      exact le_trans (by linarith [(hinside hahead).2]) (neg_le_abs _)
    have hclose := Point.near_move_of_le hneart hle
    rw [Point.move_zero] at hclose
    exact ⟨1, zero_le_one, le_rfl, by rwa [one_mul, add_sub_cancel]⟩
  · -- the point lies between the ends
    obtain ⟨t, ht, ht', hzero⟩ := exists_fraction hfirst hlast
    exact ⟨t, ht, ht', by rw [hzero, Point.move_zero]; exact m.near_self⟩

/-- What is visible without being drawn is smaller than twice the tolerance. -/
theorem near_of_segment?_eq_none (hl : c.boundary.SeparatedFromAxes)
    (hne : c.boundary.a ≠ 0 ∨ c.boundary.b ≠ 0) (h : c.segment? v = none) {m n : Point K}
    (hm : c.Visible v m) (hn : c.Visible v n) :
    m.near (2 * Point.sameTolerance) n = true := by
  obtain ⟨e, he, hright⟩ := Line.exists_rightward hne
  have hahead {m : Point K} {d : K} (hd : 0 ≤ d) (hm : c.Visible v m)
      (hn : c.Visible v (m.move e d)) :
      m.near (2 * Point.sameTolerance) (m.move e d) = true := by
    obtain ⟨behind, _, hbehind, _, ⟨s, hs, hnears⟩, _⟩ := hm.exists_crossings hl hne he hright
    obtain ⟨_, ahead, _, hahead, _, t, ht, hneart⟩ := hn.exists_crossings hl hne he hright
    rw [Point.move_move] at hahead hneart
    rw [Point.move_move] at hneart
    -- the one crossing is near to a point behind both and to a point ahead of both
    rw [← segment?_eq_none h hbehind hahead, Point.near_move_iff] at hneart
    rw [Point.near_move_iff] at hnears
    have hle : |0 - d| ≤ |behind - s| + |behind - (d + t)| := by
      rw [zero_sub, abs_neg, abs_of_nonneg hd]
      linarith [le_abs_self (behind - s), neg_le_abs (behind - (d + t))]
    have hclose : (m.move e 0).near (2 * Point.sameTolerance) (m.move e d) = true := by
      rw [Point.near_move_iff]
      have hx := mul_le_mul_of_nonneg_right hle (abs_nonneg e.x)
      have hy := mul_le_mul_of_nonneg_right hle (abs_nonneg e.y)
      rw [add_mul] at hx hy
      exact ⟨by linarith [hnears.1, hneart.1], by linarith [hnears.2, hneart.2]⟩
    rwa [Point.move_zero] at hclose
  obtain ⟨d, rfl⟩ := Line.exists_eq_move he hright (hn.1.trans hm.1.symm)
  rcases le_total 0 d with hd | hd
  · exact hahead hd hm hn
  · have hback : (m.move e d).move e (-d) = m := by
      rw [Point.move_move, add_neg_cancel, Point.move_zero]
    have hclose := hahead (m := m.move e d) (neg_nonneg.mpr hd) hn (by rwa [hback])
    rwa [hback, Point.near_comm abs_sub_comm] at hclose

/-- The segment of a constraint is its boundary inside the viewport. Its ends are on the boundary
and inside the viewport up to the tolerance, they are apart and in order, and what is visible of
the boundary is near to the segment. Where there is none, next to nothing is visible. -/
theorem segment?_clips (hl : c.boundary.SeparatedFromAxes) :
    (∀ p q, c.segment? v = some (p, q) →
      (∀ w ∈ [p, q], c.boundary.valueAt w = c.rhs ∧
        v.contains Point.sameTolerance w = true) ∧
      (p.x < q.x ∨ p.x = q.x ∧ p.y < q.y) ∧ p.near Point.sameTolerance q = false ∧
      ∀ m, c.Visible v m →
        ∃ t, 0 ≤ t ∧ t ≤ 1 ∧ m.near Point.sameTolerance (p.toward q t) = true) ∧
    (c.segment? v = none → c.boundary.a ≠ 0 ∨ c.boundary.b ≠ 0 → ∀ m n, c.Visible v m →
      c.Visible v n → m.near (2 * Point.sameTolerance) n = true) := by
  refine ⟨fun p q h => ?_, fun h hne m n => near_of_segment?_eq_none hl hne h⟩
  obtain ⟨hp, hq, hapart, hbetween⟩ := segment?_eq_some h
  have hpq : p ≠ q := by
    rintro rfl
    rw [p.near_self] at hapart
    cases hapart
  refine ⟨fun w hw => ?_, ?_, hapart,
    fun m hm => exists_near_toward hl (ne_zero_of_mem_crossings hp) h hm⟩
  · rcases List.mem_pair.mp hw with rfl | rfl
    · exact of_mem_crossings hp
    · exact of_mem_crossings hq
  · rcases (Point.lexLe_iff p q).mp (hbetween q hq).1 with hx | ⟨hx, hy⟩
    · exact .inl hx
    · refine .inr ⟨hx, hy.lt_of_ne fun hy => hpq ?_⟩
      obtain ⟨x, y⟩ := p
      exact Point.mk.injEq .. ▸ ⟨hx, hy⟩

/-- A line from one corner of a viewport to another, which crosses all four borders. -/
def diagonal : Constraint ℚ := ⟨"c1", [1, 1], .le, 4⟩

theorem segment?_clips_diagonal : diagonal.boundary.SeparatedFromAxes ∧
    diagonal.segment? ⟨4, 4⟩ = some (⟨0, 4⟩, ⟨4, 0⟩) ∧ diagonal.Visible ⟨4, 4⟩ ⟨1, 3⟩ ∧
    ∃ t, 0 ≤ t ∧ t ≤ 1 ∧
      Point.near Point.sameTolerance ⟨1, 3⟩ (Point.toward (⟨0, 4⟩ : Point ℚ) ⟨4, 0⟩ t) = true := by
  have hl : diagonal.boundary.SeparatedFromAxes := by constructor <;> right <;> decide +kernel
  have hkept : Point.distinct Point.sameTolerance (diagonal.borderPoints ⟨4, 4⟩) =
      [⟨0, 4⟩, ⟨4, 0⟩] := by decide +kernel
  have hsorted : ([⟨0, 4⟩, ⟨4, 0⟩] : List (Point ℚ)).Pairwise fun p q => p.lexLe q = true := by
    decide +kernel
  have hcrossings : diagonal.crossings ⟨4, 4⟩ = [⟨0, 4⟩, ⟨4, 0⟩] :=
    (congrArg (List.mergeSort · Point.lexLe) hkept).trans (List.mergeSort_of_pairwise hsorted)
  have hsegment : diagonal.segment? ⟨4, 4⟩ = some (⟨0, 4⟩, ⟨4, 0⟩) := by
    rw [segment?, hcrossings]
    rfl
  have hvisible : diagonal.Visible ⟨4, 4⟩ ⟨1, 3⟩ := by constructor <;> decide +kernel
  exact ⟨hl, hsegment, hvisible, ((segment?_clips hl).1 _ _ hsegment).2.2.2 _ hvisible⟩

end Constraint
end LinProg
