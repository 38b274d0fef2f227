import LinProg.Proofs.Plane.Angles
import LinProg.Proofs.Plane.Drawing
import Mathlib.Algebra.Order.BigOperators.Group.List
import Mathlib.Analysis.Convex.Hull
import Mathlib.Data.List.Rotate

/-!
# The drawing is a convex polygon

A corner of a region is farther out than all its other points in some direction. Points each of
which is the farthest in some direction are seen from their centroid at different angles. Whoever
looks around from there never turns by a half turn or more from one of them to the next, for then
all others would lie to one side. So the points, ordered by their angles, are the corners of a
convex polygon counterclockwise, and it does not matter where the order begins.
-/
namespace LinProg

/-- In an ordered list that is closed to a circle, nothing comes between two neighbours. -/
theorem cyclic_of_isRotated {A : Type} {R : A → A → Prop} {points rest : List A} {u v w : A}
    (hpoints : points.Pairwise R) (hrot : (u :: v :: rest).IsRotated points) (hw : w ∈ rest) :
    R u v ∧ R v w ∨ R v w ∧ R w u ∨ R w u ∧ R u v := by
  obtain ⟨n, hn, rfl⟩ := List.isRotated_iff_mod.mp hrot
  rw [List.rotate_eq_drop_append_take hn] at hpoints
  match n with
  | 0 =>
    simp only [List.drop_zero, List.take_zero, List.append_nil, List.pairwise_cons] at hpoints
    exact .inl ⟨hpoints.1 v List.mem_cons_self, hpoints.2.1 w hw⟩
  | 1 =>
    simp only [List.drop_succ_cons, List.drop_zero, List.take_succ_cons, List.take_zero,
      List.pairwise_append, List.pairwise_cons, List.forall_mem_cons] at hpoints
    exact .inr (.inl ⟨hpoints.1.1 w hw, (hpoints.2.2.2 w hw).1⟩)
  | n + 2 =>
    simp only [List.drop_succ_cons, List.take_succ_cons, List.pairwise_append, List.pairwise_cons,
      List.forall_mem_cons] at hpoints
    obtain ⟨_, ⟨⟨huv, _⟩, hv, _⟩, hbefore⟩ := hpoints
    rw [← List.take_append_drop n rest, List.mem_append] at hw
    rcases hw with hw | hw
    · exact .inl ⟨huv, hv w hw⟩
    · exact .inr (.inr ⟨(hbefore w hw).1, huv⟩)

variable {K : Type} [Field K] [LinearOrder K]

namespace Point

/-- From the first point to the second and on to the third the way turns to the left. -/
def LeftTurn (u v w : Point K) : Prop := 0 < (u.vectorTo v).cross (v.vectorTo w)

/-- Seen from a center, the first point has the lesser angle. -/
def SeenBefore (center v w : Point K) : Prop :=
  (center.vectorTo v).AngleLt (center.vectorTo w)

/-- The line through the origin along a direction. -/
def axis (d : Point K) : Line K := ⟨-d.y, d.x, 0⟩

/-- There are three points or more, each of them is the farthest in some direction, and the
directions to them from a center cancel out. -/
structure Surround (center : Point K) (points : List (Point K)) : Prop where
  nodup : points.Nodup
  many : 3 ≤ points.length
  extreme : ∀ v ∈ points, ∃ g : Line K, ∀ w ∈ points, w ≠ v → g.valueAt w < g.valueAt v
  balanced : ∀ g : Line K, (points.map fun v => g.valueAt (center.vectorTo v)).sum = 0

theorem valueAt_axis (d e : Point K) : d.axis.valueAt e = d.cross e := by
  simp only [axis, Line.valueAt, cross]
  ring

theorem leftTurn_iff (center u v w : Point K) : u.LeftTurn v w ↔
    0 < (center.vectorTo u).cross (center.vectorTo v) +
      (center.vectorTo v).cross (center.vectorTo w) +
      (center.vectorTo w).cross (center.vectorTo u) := by
  have hsum : (u.vectorTo v).cross (v.vectorTo w) =
      (center.vectorTo u).cross (center.vectorTo v) +
        (center.vectorTo v).cross (center.vectorTo w) +
        (center.vectorTo w).cross (center.vectorTo u) := by
    simp only [vectorTo, cross]
    ring
  rw [LeftTurn, hsum]

namespace Surround
variable {center : Point K} {points other : List (Point K)} {u v w : Point K}

theorem perm (h : Surround center points) (hperm : other.Perm points) :
    Surround center other where
  nodup := hperm.nodup_iff.mpr h.nodup
  many := hperm.length_eq ▸ h.many
  extreme v hv := by
    obtain ⟨g, hg⟩ := h.extreme v (hperm.mem_iff.mp hv)
    exact ⟨g, fun w hw => hg w (hperm.mem_iff.mp hw)⟩
  balanced g := (hperm.map _).sum_eq.trans (h.balanced g)

theorem exists_ne (h : Surround center points) (v : Point K) : ∃ w ∈ points, w ≠ v := by
  obtain ⟨hnodup, hmany, _, _⟩ := h
  match points with
  | a :: b :: rest =>
    have hab : a ≠ b := fun hab => (List.nodup_cons.mp hnodup).1 (hab ▸ List.mem_cons_self)
    by_cases ha : a = v
    · exact ⟨b, by simp, fun hb => hab (ha.trans hb.symm)⟩
    · exact ⟨a, by simp, ha⟩

variable [IsStrictOrderedRing K]

/-- The center does not lie to one side of all points. -/
theorem not_neg (h : Surround center points) {g : Line K}
    (hg : ∀ w ∈ points, g.valueAt (center.vectorTo w) ≤ 0) (hw : w ∈ points) :
    ¬ g.valueAt (center.vectorTo w) < 0 := by
  intro hneg
  have hlt := List.sum_lt_sum (l := points) _ (fun _ => (0 : K)) hg ⟨w, hw, hneg⟩
  rw [h.balanced g] at hlt
  simp at hlt

/-- In some direction a point is ahead of the center, farther than all others. -/
theorem exists_outward (h : Surround center points) (hv : v ∈ points) : ∃ g : Line K,
    0 < g.valueAt (center.vectorTo v) ∧ ∀ w ∈ points, w ≠ v →
      g.valueAt (center.vectorTo w) < g.valueAt (center.vectorTo v) := by
  obtain ⟨g, hg⟩ := h.extreme v hv
  have hless {w : Point K} (hw : w ∈ points) (hwv : w ≠ v) :
      g.valueAt (center.vectorTo w) < g.valueAt (center.vectorTo v) := by
    simpa using hg w hw hwv
  refine ⟨g, ?_, fun w => hless⟩
  by_contra hle
  rw [not_lt] at hle
  obtain ⟨w, hw, hwv⟩ := h.exists_ne v
  refine h.not_neg (fun u hu => ?_) hw ((hless hw hwv).trans_le hle)
  by_cases huv : u = v
  · rwa [huv]
  · exact (hless hu huv).le.trans hle

theorem vectorTo_ne_origin (h : Surround center points) (hv : v ∈ points) :
    center.vectorTo v ≠ origin := by
  intro heq
  obtain ⟨g, hpos, _⟩ := h.exists_outward hv
  rw [heq] at hpos
  simp [Line.valueAt, origin] at hpos

/-- No two points are seen from the center in the same direction. -/
theorem seenBefore_or_seenBefore (h : Surround center points) (hv : v ∈ points) (hw : w ∈ points)
    (hvw : v ≠ w) : SeenBefore center v w ∨ SeenBefore center w v := by
  rcases angleLt_or_angleLt_or_over (h.vectorTo_ne_origin hv) (h.vectorTo_ne_origin hw) with
    hlt | hlt | ⟨t, ht, heq⟩
  · exact .inl hlt
  · exact .inr hlt
  · -- each of the two would be farther out than the other
    exfalso
    obtain ⟨g, hg, hgless⟩ := h.exists_outward hv
    obtain ⟨k, hk, hkless⟩ := h.exists_outward hw
    have hlonger : 1 < t := by
      have hless := hgless w hw hvw.symm
      rwa [heq, Line.valueAt_over, div_lt_iff₀ ht, lt_mul_iff_one_lt_right hg] at hless
    have hshorter : t < 1 := by
      have hless := hkless v hv hvw
      rw [heq, Line.valueAt_over] at hk hless
      rwa [lt_div_iff₀ ht, mul_lt_iff_lt_one_right ((div_pos_iff_of_pos_right ht).mp hk)] at hless
    exact hlonger.not_gt hshorter

/-- Ordered by their angles, neighbours are less than a half turn apart. -/
theorem cross_pos (h : Surround center points) (hsorted : points.Pairwise (SeenBefore center))
    {rest : List (Point K)} (hrot : (u :: v :: rest).IsRotated points) :
    0 < (center.vectorTo u).cross (center.vectorTo v) := by
  have hmem (w : Point K) : w ∈ points ↔ w ∈ u :: v :: rest := hrot.mem_iff.symm
  have hne {w : Point K} (hw : w ∈ u :: v :: rest) : center.vectorTo w ≠ origin :=
    h.vectorTo_ne_origin ((hmem w).mpr hw)
  by_contra hle
  rw [not_lt] at hle
  -- otherwise all other points would lie to the right of the first direction
  have hright {w : Point K} (hw : w ∈ rest) :
      (center.vectorTo u).cross (center.vectorTo w) < 0 :=
    InTurn.cross_neg (cyclic_of_isRotated (R := SeenBefore center) hsorted hrot hw)
      (hne (by simp)) (hne (by simp)) (hne (by simp [hw])) hle
  have hmany : 3 ≤ (u :: v :: rest).length := hrot.perm.length_eq ▸ h.many
  rw [List.length_cons, List.length_cons] at hmany
  obtain ⟨w, hw⟩ : ∃ w, w ∈ rest := List.exists_mem_of_length_pos (by omega)
  refine h.not_neg (g := (center.vectorTo u).axis) (w := w) (fun z hz => ?_) ?_ ?_
  · rw [valueAt_axis]
    rw [hmem, List.mem_cons, List.mem_cons] at hz
    rcases hz with rfl | rfl | hz
    · exact (cross_self _).le
    · exact hle
    · exact (hright hz).le
  · exact (hmem w).mpr (by simp [hw])
  · rw [valueAt_axis]
    exact hright hw

theorem leftTurn (h : Surround center points) (hsorted : points.Pairwise (SeenBefore center))
    {rest : List (Point K)} (hrot : (u :: v :: w :: rest).IsRotated points) :
    u.LeftTurn v w := by
  have hrot' : (v :: w :: (rest ++ [u])).IsRotated points :=
    (List.isRotated_concat u (v :: w :: rest)).trans hrot
  have huv := h.cross_pos hsorted hrot
  have hvw := h.cross_pos hsorted hrot'
  have hmem {z : Point K} (hz : z ∈ u :: v :: w :: rest) : z ∈ points := hrot.mem_iff.mp hz
  have hnodup := hrot.nodup_iff.mpr h.nodup
  rw [List.nodup_cons, List.nodup_cons] at hnodup
  have huv' : u ≠ v := fun heq => hnodup.1 (by simp [heq])
  have hwv' : w ≠ v := fun heq => hnodup.2.1 (by simp [heq])
  obtain ⟨g, hg, hless⟩ := h.exists_outward (hmem (z := v) (by simp))
  have hu := mul_pos hvw (sub_pos.mpr (hless u (hmem (by simp)) huv'))
  have hw := mul_pos huv (sub_pos.mpr (hless w (hmem (by simp)) hwv'))
  have hdep := cross_dependent (center.vectorTo u) (center.vectorTo v) (center.vectorTo w) g
  rw [leftTurn_iff center]
  refine (mul_pos_iff_of_pos_right hg).mp ?_
  linarith

theorem notMem_convexHull (h : Surround center points) (hv : v ∈ points) :
    (v.x, v.y) ∉ convexHull K {z | ∃ w ∈ points.erase v, z = (w.x, w.y)} := by
  obtain ⟨g, hg⟩ := h.extreme v hv
  have hconvex : Convex K {z : K × K | g.a * z.1 + g.b * z.2 < g.valueAt v} := by
    refine convex_halfSpace_lt ⟨fun y z => ?_, fun c z => ?_⟩ _
    · simp
      ring
    · simp
      ring
  have hothers : {z | ∃ w ∈ points.erase v, z = (w.x, w.y)} ⊆
      {z : K × K | g.a * z.1 + g.b * z.2 < g.valueAt v} := by
    rintro _ ⟨w, hw, rfl⟩
    obtain ⟨hwv, hw⟩ := h.nodup.mem_erase_iff.mp hw
    exact hg w hw hwv
  exact fun hmem => lt_irrefl _ (convexHull_min hothers hconvex hmem)

end Surround

section
variable [Polar K] [Polar.Ordered K]

theorem pairwise_sortByAngle (center : Point K) (points : List (Point K)) :
    (sortByAngle center points).Pairwise fun v w =>
      Polar.angleLe (angleFrom center v) (angleFrom center w) = true := by
  refine List.pairwise_mergeSort (fun u v w => ?_) (fun v w => ?_) points
  · exact Polar.Ordered.angleLe_trans _ _ _
  · exact Polar.Ordered.angleLe_total _ _

/-- There is one way only to put points that are seen at different angles into order. -/
theorem sortByAngle_eq {center : Point K} {points sorted : List (Point K)}
    (hperm : points.Perm sorted)
    (hsorted : sorted.Pairwise fun v w =>
      Polar.angleLe (angleFrom center v) (angleFrom center w) = true)
    (hangles : ∀ v ∈ sorted, ∀ w ∈ sorted,
      Polar.angleLe (angleFrom center v) (angleFrom center w) = true →
        Polar.angleLe (angleFrom center w) (angleFrom center v) = true → v = w) :
    sortByAngle center points = sorted := by
  have hsame := (sortByAngle_perm center points).trans hperm
  exact hsame.eq_of_pairwise (fun v w hv hw => hangles v (hsame.mem_iff.mp hv) w hw)
    (pairwise_sortByAngle center points) hsorted

theorem Surround.pairwise_seenBefore [IsStrictOrderedRing K] {center : Point K}
    {points : List (Point K)} (h : Surround center points) :
    (sortByAngle center points).Pairwise (SeenBefore center) := by
  have hsorted := h.perm (sortByAngle_perm center points)
  refine ((pairwise_sortByAngle center points).and hsorted.nodup).imp_of_mem ?_
  intro v w hv hw hvw
  refine (hsorted.seenBefore_or_seenBefore hv hw hvw.2).resolve_right ?_
  exact (Polar.Ordered.angleLe_atan2_iff (hsorted.vectorTo_ne_origin hv)
    (hsorted.vectorTo_ne_origin hw)).mp hvw.1

end

theorem sum_valueAt_vectorTo (g : Line K) (center : Point K) (points : List (Point K)) :
    (points.map fun v => g.valueAt (center.vectorTo v)).sum =
      g.a * ((points.map x).sum - points.length * center.x) +
        g.b * ((points.map y).sum - points.length * center.y) := by
  induction points with
  | nil => simp
  | cons v rest ih =>
    simp only [List.map_cons, List.sum_cons, ih, List.length_cons, Nat.cast_add, Nat.cast_one]
    simp only [Line.valueAt, vectorTo]
    ring

/-- The directions from the centroid to the points cancel out. -/
theorem sum_valueAt_centroid [IsStrictOrderedRing K] {points : List (Point K)}
    (hne : points ≠ []) (g : Line K) :
    (points.map fun v => g.valueAt ((centroid points).vectorTo v)).sum = 0 := by
  have hcount : (points.length : K) ≠ 0 := by simpa using hne
  rw [sum_valueAt_vectorTo]
  simp [centroid, Scalar.sum_exact, Scalar.ofNat, mul_div_cancel₀, hcount]

end Point

namespace Problem
variable [IsStrictOrderedRing K] {p : Problem K}

/-- Where all accepted candidates satisfy the constraints exactly, they are the corners of a convex
polygon around their centroid. -/
theorem surround_distinctVertices
    (hexact : ∀ v ∈ p.candidateVertices,
      v.feasible drawingTolerance p.constraints = true → v.feasible 0 p.constraints = true)
    (hmany : 3 ≤ p.distinctVertices.length) :
    Point.Surround (Point.centroid p.distinctVertices) p.distinctVertices where
  nodup := Point.nodup_distinct _
  many := hmany
  extreme v hv := by
    have hinside {w : Point K} (hw : w ∈ p.distinctVertices) :
        w ∈ p.candidateVertices ∧ Inside p.halfPlanes w := by
      obtain ⟨hcandidate, haccepted⟩ :=
        List.mem_filter.mp ((Point.distinct_sublist _ _).subset hw)
      exact ⟨hcandidate, feasible_iff_inside.mp (hexact w hcandidate haccepted)⟩
    have hcorner := isCorner_of_mem_candidateVertices (hinside hv).1 (hinside hv).2
    obtain ⟨g, hg⟩ := hcorner.exists_extreme
    exact ⟨g, fun w hw => hg w (hinside hw).2⟩
  balanced := Point.sum_valueAt_centroid (List.ne_nil_of_length_pos (by omega))

variable [Polar K]

/-- The drawing of a region with three points or more is a convex polygon, counterclockwise: any
three of its points that follow one another, also from the end to the beginning, turn to the left,
and none lies in the convex hull of the others. It is assumed that no candidate is accepted by
the tolerance only, neither for a constraint of the problem nor for a negative coordinate. -/
theorem region_convex [Polar.Ordered K] (hp : p.validate = .ok ()) (hsize : p.size = 2)
    (hexact : ∀ v ∈ p.candidateVertices,
      v.feasible drawingTolerance p.constraints = true → v.feasible 0 p.constraints = true)
    (hmany : 3 ≤ p.region.length) :
    (∀ u v w rest, (u :: v :: w :: rest).IsRotated p.region → u.LeftTurn v w) ∧
      ∀ v ∈ p.region,
        (v.x, v.y) ∉ convexHull K {z | ∃ w ∈ p.region.erase v, z = (w.x, w.y)} := by
  have hperm := region_perm hp hsize
  rw [hperm.length_eq] at hmany
  have hvertices := surround_distinctVertices hexact hmany
  have hregion := hvertices.perm hperm
  have hsorted : p.region.Pairwise (Point.SeenBefore (Point.centroid p.distinctVertices)) := by
    rw [region_eq hp hsize, if_neg hmany.not_gt]
    exact hvertices.pairwise_seenBefore
  exact ⟨fun u v w rest => hregion.leftTurn hsorted, fun v => hregion.notMem_convexHull⟩

/-- A region with four corners. -/
def fourCorners : Problem ℚ where
  names := ["x1", "x2"]
  objective := ⟨[3, 2], .max⟩
  constraints := [⟨"c1", [2, 1], .le, 10⟩, ⟨"c2", [1, 2], .le, 8⟩]
  toggles := .none

/-- The way from the last corner over the first to the second turns to the left as well. -/
theorem region_convex_fourCorners : fourCorners.validate = .ok () ∧ fourCorners.size = 2 ∧
    (∀ v ∈ fourCorners.candidateVertices,
      v.feasible drawingTolerance fourCorners.constraints = true →
        v.feasible 0 fourCorners.constraints = true) ∧
    fourCorners.region = [⟨0, 0⟩, ⟨5, 0⟩, ⟨4, 2⟩, ⟨0, 4⟩] ∧
    Point.LeftTurn (⟨0, 4⟩ : Point ℚ) ⟨0, 0⟩ ⟨5, 0⟩ ∧
    ((4, 2) : ℚ × ℚ) ∉
      convexHull ℚ {z | ∃ w ∈ fourCorners.region.erase ⟨4, 2⟩, z = (w.x, w.y)} := by
  have hp : fourCorners.validate = .ok () := by decide +kernel
  have hexact : ∀ v ∈ fourCorners.candidateVertices,
      v.feasible drawingTolerance fourCorners.constraints = true →
        v.feasible 0 fourCorners.constraints = true := by decide +kernel
  have hvertices : fourCorners.distinctVertices = [⟨4, 2⟩, ⟨5, 0⟩, ⟨0, 4⟩, ⟨0, 0⟩] := by
    decide +kernel
  have hregion : fourCorners.region = [⟨0, 0⟩, ⟨5, 0⟩, ⟨4, 2⟩, ⟨0, 4⟩] := by
    rw [region_eq hp rfl, hvertices, if_neg (by decide)]
    apply Point.sortByAngle_eq <;> decide +kernel
  obtain ⟨hturns, hhull⟩ := region_convex hp rfl hexact (by rw [hregion]; decide)
  refine ⟨hp, rfl, hexact, hregion, hturns _ _ _ [⟨4, 2⟩] ?_, hhull ⟨4, 2⟩ (by simp [hregion])⟩
  rw [hregion]
  decide +kernel

end Problem
end LinProg
