import LinProg.Proofs.Problem.Optimality
import Mathlib.Tactic.FieldSimp
import Mathlib.Tactic.LinearCombination

/-!
# Half-planes and their corners

A region of the plane is cut out by half-planes, each given by its boundary line. A point that
moves across a region either never leaves it or comes to stand on the boundary of a half-plane.
Two such moves lead from any point of a region in the first quadrant to a corner of it, without
loss for a linear function that no direction of the region improves for ever.
-/
namespace LinProg
variable {K : Type} [Field K] [LinearOrder K]

/-- The direction from one point to another. -/
def Point.vectorTo (p q : Point K) : Point K := ⟨q.x - p.x, q.y - p.y⟩

/-- The point that is reached from another one along a direction. -/
def Point.move (v d : Point K) (t : K) : Point K := ⟨v.x + t * d.x, v.y + t * d.y⟩

/-- The opposite direction. -/
def Point.reverse (d : Point K) : Point K := ⟨-d.x, -d.y⟩

/-- A direction divided by a length. -/
def Point.over (d : Point K) (t : K) : Point K := ⟨d.x / t, d.y / t⟩

namespace Point
omit [LinearOrder K]

theorem move_zero (v d : Point K) : v.move d 0 = v := by simp [move]

theorem move_move (v d : Point K) (s t : K) : (v.move d s).move d t = v.move d (s + t) := by
  simp only [move, mk.injEq]
  constructor <;> ring

theorem move_reverse (v d : Point K) (t : K) : v.move d.reverse t = v.move d (-t) := by
  simp [move, reverse]

end Point

namespace Line

/-- The half-plane on the other side of a line. -/
def flip (l : Line K) : Line K := ⟨-l.a, -l.b, -l.c⟩

/-- The direction of a line. -/
def along (l : Line K) : Point K := ⟨l.b, -l.a⟩

omit [LinearOrder K] in
@[simp] theorem flip_c (l : Line K) : l.flip.c = -l.c := rfl

@[simp] theorem valueAt_flip (l : Line K) (v : Point K) : l.flip.valueAt v = -l.valueAt v := by
  simp only [valueAt, flip]
  ring

@[simp] theorem valueAt_vectorTo (l : Line K) (p q : Point K) :
    l.valueAt (p.vectorTo q) = l.valueAt q - l.valueAt p := by
  simp only [valueAt, Point.vectorTo]
  ring

@[simp] theorem valueAt_move (l : Line K) (v d : Point K) (t : K) :
    l.valueAt (v.move d t) = l.valueAt v + t * l.valueAt d := by
  simp only [valueAt, Point.move]
  ring

@[simp] theorem valueAt_reverse (l : Line K) (d : Point K) :
    l.valueAt d.reverse = -l.valueAt d := by
  simp only [valueAt, Point.reverse]
  ring

@[simp] theorem valueAt_over (l : Line K) (d : Point K) (t : K) :
    l.valueAt (d.over t) = l.valueAt d / t := by
  simp only [valueAt, Point.over]
  ring

omit [LinearOrder K] in
@[simp] theorem reverse_reverse (d : Point K) : d.reverse.reverse = d := by
  simp [Point.reverse]

omit [LinearOrder K] in
theorem along_flip (l : Line K) : l.flip.along = l.along.reverse := rfl

theorem valueAt_along (l m : Line K) : m.valueAt l.along = -l.det m := by
  simp only [valueAt, along, det]
  ring

@[simp] theorem det_flip_left (l m : Line K) : l.flip.det m = -l.det m := by
  simp only [det, flip]
  ring

@[simp] theorem det_flip_right (l m : Line K) : l.det m.flip = -l.det m := by
  simp only [det, flip]
  ring

theorem det_self (l : Line K) : l.det l = 0 := sub_self _

theorem det_swap (l m : Line K) : m.det l = -l.det m := (neg_sub _ _).symm

/-- A function changes along a line as much as its lines turn away from it. -/
theorem valueAt_direction {l : Line K} {e : Point K} (he : e = l.along ∨ e = l.along.reverse)
    (m : Line K) : m.valueAt e = -l.det m ∨ m.valueAt e = l.det m := by
  rcases he with rfl | rfl
  · exact .inl (valueAt_along l m)
  · exact .inr (by rw [valueAt_reverse, valueAt_along, neg_neg])

theorem valueAt_direction_self {l : Line K} {e : Point K}
    (he : e = l.along ∨ e = l.along.reverse) : l.valueAt e = 0 := by
  rcases valueAt_direction he l with h | h <;> simp [h, det_self]

theorem meet?_eq (l m : Line K) : l.meet? m = if |l.det m| < parallelTolerance then none
    else some ⟨(l.c * m.b - m.c * l.b) / l.det m + 0, (l.a * m.c - m.a * l.c) / l.det m + 0⟩ := rfl

/-- Two lines that are not parallel meet where both equations hold, and nowhere else. -/
theorem meet?_eq_some_iff {l m : Line K} {v : Point K} (hdet : l.det m ≠ 0) :
    l.meet? m = some v ↔
      parallelTolerance ≤ |l.det m| ∧ l.valueAt v = l.c ∧ m.valueAt v = m.c := by
  rw [meet?_eq, Option.ite_none_left_eq_some, not_lt, Option.some.injEq, add_zero, add_zero]
  refine and_congr_right fun _ => ⟨?_, ?_⟩
  · rintro rfl
    simp only [valueAt]
    constructor
    · field_simp
      simp only [det]
      ring
    · field_simp
      simp only [det]
      ring
  · rintro ⟨hl, hm⟩
    obtain ⟨x, y⟩ := v
    simp only [valueAt] at hl hm
    rw [Point.mk.injEq, div_eq_iff hdet, div_eq_iff hdet]
    simp only [det]
    constructor
    · linear_combination l.b * hm - m.b * hl
    · linear_combination m.a * hl - l.a * hm

/-- Two lines that are not parallel do not meet twice. -/
theorem eq_of_valueAt_eq {l m : Line K} (hdet : l.det m ≠ 0) {v w : Point K}
    (hl : l.valueAt v = l.valueAt w) (hm : m.valueAt v = m.valueAt w) : v = w := by
  obtain ⟨x, y⟩ := v
  simp only [valueAt] at hl hm
  have hx : l.det m * (x - w.x) = 0 := by
    simp only [det]
    linear_combination m.b * hl - l.b * hm
  have hy : l.det m * (y - w.y) = 0 := by
    simp only [det]
    linear_combination l.a * hm - m.a * hl
  rw [sub_eq_zero.mp ((mul_eq_zero.mp hx).resolve_left hdet),
    sub_eq_zero.mp ((mul_eq_zero.mp hy).resolve_left hdet)]

end Line

section
variable [IsStrictOrderedRing K]

namespace Line

theorem parallelTolerance_pos : (0 : K) < parallelTolerance := by
  rw [parallelTolerance, Scalar.ofDecimal_exact]
  positivity

theorem det_ne_zero_of_meet? {l m : Line K} {v : Point K} (h : l.meet? m = some v) :
    l.det m ≠ 0 := by
  intro hdet
  rw [meet?_eq, if_pos (by simp [hdet, parallelTolerance_pos])] at h
  cases h

/-- A point where two lines meet is on both. -/
theorem valueAt_of_meet? {l m : Line K} {v : Point K} (h : l.meet? m = some v) :
    l.valueAt v = l.c ∧ m.valueAt v = m.c :=
  ((meet?_eq_some_iff (det_ne_zero_of_meet? h)).mp h).2

end Line
end

/-- The point lies in every half-plane of a list. -/
def Inside (region : List (Line K)) (v : Point K) : Prop := ∀ h ∈ region, h.valueAt v ≤ h.c

/-- The direction never leaves a half-plane of a list. -/
def Recedes (region : List (Line K)) (d : Point K) : Prop := ∀ h ∈ region, h.valueAt d ≤ 0

variable [IsStrictOrderedRing K] {region : List (Line K)} {v d : Point K}

theorem Recedes.inside_move (h : Recedes region d) (hv : Inside region v) {t : K} (ht : 0 ≤ t) :
    Inside region (v.move d t) := by
  intro l hl
  rw [Line.valueAt_move]
  linarith [hv l hl, mul_nonpos_of_nonneg_of_nonpos ht (h l hl)]

/-- Between two points of a half-plane all points belong to it. -/
theorem valueAt_move_le {l : Line K} (hv : l.valueAt v ≤ l.c) {s t : K} (hs : 0 ≤ s) (hst : s ≤ t)
    (ht : l.valueAt (v.move d t) ≤ l.c) : l.valueAt (v.move d s) ≤ l.c := by
  rw [Line.valueAt_move] at ht ⊢
  rcases le_or_gt (l.valueAt d) 0 with hd | hd
  · linarith [mul_nonpos_of_nonneg_of_nonpos hs hd]
  · linarith [mul_le_mul_of_nonneg_right hst hd.le]

/-- A direction that leaves the region leads to the boundary of a half-plane that it leaves. -/
theorem recedes_or_exists_tight (hv : Inside region v) (d : Point K) :
    Recedes region d ∨ ∃ t, 0 ≤ t ∧ Inside region (v.move d t) ∧
      ∃ h ∈ region, 0 < h.valueAt d ∧ h.valueAt (v.move d t) = h.c := by
  induction region with
  | nil => exact .inl fun h hh => absurd hh List.not_mem_nil
  | cons l region ih =>
    have hl := hv l List.mem_cons_self
    have hrest : Inside region v := fun h hh => hv h (List.mem_cons_of_mem _ hh)
    -- how far the direction leads within the first half-plane, where it leaves that
    have hreach (hd : 0 < l.valueAt d) : 0 ≤ (l.c - l.valueAt v) / l.valueAt d ∧
        l.valueAt (v.move d ((l.c - l.valueAt v) / l.valueAt d)) = l.c := by
      refine ⟨div_nonneg (sub_nonneg.mpr hl) hd.le, ?_⟩
      rw [Line.valueAt_move, div_mul_cancel₀ _ hd.ne', add_sub_cancel]
    rcases ih hrest with hrec | ⟨t, ht, hin, h, hh, hhd, htight⟩
    · rcases le_or_gt (l.valueAt d) 0 with hd | hd
      · exact .inl (List.forall_mem_cons.mpr ⟨hd, hrec⟩)
      · obtain ⟨hnonneg, htight⟩ := hreach hd
        exact .inr ⟨_, hnonneg, List.forall_mem_cons.mpr
          ⟨htight.le, hrec.inside_move hrest hnonneg⟩, l, List.mem_cons_self, hd, htight⟩
    · rcases le_or_gt (l.valueAt (v.move d t)) l.c with hlt | hlt
      · exact .inr ⟨t, ht, List.forall_mem_cons.mpr ⟨hlt, hin⟩, h, List.mem_cons_of_mem _ hh, hhd,
          htight⟩
      · rw [Line.valueAt_move] at hlt
        have hd : 0 < l.valueAt d := by
          by_contra hd
          linarith [mul_nonpos_of_nonneg_of_nonpos ht (not_lt.mp hd)]
        obtain ⟨hnonneg, hltight⟩ := hreach hd
        have hle : (l.c - l.valueAt v) / l.valueAt d ≤ t :=
          (div_le_iff₀ hd).mpr (sub_left_le_of_le_add hlt.le)
        exact .inr ⟨_, hnonneg, List.forall_mem_cons.mpr ⟨hltight.le, fun k hk =>
          valueAt_move_le (hrest k hk) hnonneg hle (hin k hk)⟩, l, List.mem_cons_self, hd, hltight⟩

/-- A linear function is nowhere less on the boundary that is reached one way or the other, unless
it improves for ever. -/
theorem recedes_or_exists_move (hv : Inside region v) {e : Point K}
    (hback : ¬ Recedes region e.reverse) (g : Line K) :
    (Recedes region e ∧ 0 < g.valueAt e) ∨ ∃ t, Inside region (v.move e t) ∧
      g.valueAt v ≤ g.valueAt (v.move e t) ∧
        ∃ h ∈ region, h.valueAt e ≠ 0 ∧ h.valueAt (v.move e t) = h.c := by
  rcases lt_or_ge 0 (g.valueAt e) with hg | hg
  · rcases recedes_or_exists_tight hv e with hrec | ⟨t, ht, hin, h, hh, hpos, htight⟩
    · exact .inl ⟨hrec, hg⟩
    · refine .inr ⟨t, hin, ?_, h, hh, hpos.ne', htight⟩
      rw [Line.valueAt_move]
      exact le_add_of_nonneg_right (mul_nonneg ht hg.le)
  · rcases recedes_or_exists_tight hv e.reverse with hrec | ⟨t, ht, hin, h, hh, hpos, htight⟩
    · exact absurd hrec hback
    · rw [Line.valueAt_reverse] at hpos
      rw [Point.move_reverse] at hin htight
      refine .inr ⟨-t, hin, ?_, h, hh, (neg_pos.mp hpos).ne, htight⟩
      rw [Line.valueAt_move]
      exact le_add_of_nonneg_right (mul_nonneg_of_nonpos_of_nonpos (neg_nonpos.mpr ht) hg)

/-- The point stands on the boundaries of two half-planes that are not parallel. -/
structure IsCorner (region : List (Line K)) (v : Point K) : Prop where
  inside : Inside region v
  tight : ∃ h ∈ region, ∃ k ∈ region, h.det k ≠ 0 ∧ h.valueAt v = h.c ∧ k.valueAt v = k.c

/-- A corner is farther out than all other points of the region in some direction. -/
theorem IsCorner.exists_extreme {region : List (Line K)} {v : Point K} (hv : IsCorner region v) :
    ∃ g : Line K, ∀ w, Inside region w → w ≠ v → g.valueAt w < g.valueAt v := by
  obtain ⟨_, h, hh, k, hk, hdet, hhv, hkv⟩ := hv
  refine ⟨⟨h.a + k.a, h.b + k.b, h.c + k.c⟩, fun w hw hwv => ?_⟩
  have hvalue (z : Point K) : Line.valueAt ⟨h.a + k.a, h.b + k.b, h.c + k.c⟩ z =
      h.valueAt z + k.valueAt z := by
    simp only [Line.valueAt]
    ring
  have hle : h.valueAt w ≤ h.valueAt v := hhv ▸ hw h hh
  have hle' : k.valueAt w ≤ k.valueAt v := hkv ▸ hw k hk
  rw [hvalue, hvalue]
  refine lt_of_le_of_ne (add_le_add hle hle') fun heq => hwv ?_
  exact Line.eq_of_valueAt_eq hdet (by linarith) (by linarith)

theorem Recedes.y_nonneg (hx : Line.xAxis.flip ∈ region) (h : Recedes region d) : 0 ≤ d.y := by
  simpa [Line.valueAt, Line.flip, Line.xAxis] using h _ hx

theorem Recedes.x_nonneg (hy : Line.yAxis.flip ∈ region) (h : Recedes region d) : 0 ≤ d.x := by
  simpa [Line.valueAt, Line.flip, Line.yAxis] using h _ hy

/-- Along the boundary of a half-plane that is not horizontal a corner is reached. -/
theorem recedes_along_or_exists_corner (hx : Line.xAxis.flip ∈ region) (hv : Inside region v)
    {h : Line K} (hh : h ∈ region) (ha : h.a ≠ 0) (htight : h.valueAt v = h.c) (g : Line K) :
    (∃ d, (d = h.along ∨ d = h.along.reverse) ∧ Recedes region d ∧ 0 < g.valueAt d) ∨
      ∃ w, IsCorner region w ∧ g.valueAt v ≤ g.valueAt w := by
  obtain ⟨e, he, hup⟩ : ∃ e, (e = h.along ∨ e = h.along.reverse) ∧ 0 < e.y := by
    rcases ha.lt_or_gt with ha | ha
    · exact ⟨_, .inl rfl, neg_pos.mpr ha⟩
    · exact ⟨_, .inr rfl, by simpa [Point.reverse, Line.along] using ha⟩
  have hback : ¬ Recedes region e.reverse := fun hrec =>
    (neg_neg_of_pos hup).not_ge (hrec.y_nonneg hx)
  rcases recedes_or_exists_move hv hback g with hrec | ⟨t, hin, hg, k, hk, hke, hktight⟩
  · exact .inl ⟨e, he, hrec⟩
  · refine .inr ⟨_, ⟨hin, h, hh, k, hk, fun hdet => hke ?_, ?_, hktight⟩, hg⟩
    · rcases Line.valueAt_direction he k with hke | hke <;> simp [hke, hdet]
    · have hstay : h.valueAt e = 0 := Line.valueAt_direction_self he
      rw [Line.valueAt_move, hstay, mul_zero, add_zero, htight]

/-- In a region of the first quadrant a linear function is nowhere greater than at some corner,
unless it improves for ever along an axis or along a boundary. -/
theorem recedes_or_exists_corner (hx : Line.xAxis.flip ∈ region) (hy : Line.yAxis.flip ∈ region)
    (hv : Inside region v) (g : Line K) :
    (∃ d, (d = ⟨1, 0⟩ ∨ ∃ h ∈ region, d = h.along ∨ d = h.along.reverse) ∧ Recedes region d ∧
      0 < g.valueAt d) ∨ ∃ w, IsCorner region w ∧ g.valueAt v ≤ g.valueAt w := by
  have hback : ¬ Recedes region (Point.reverse ⟨1, 0⟩) := fun hrec =>
    (neg_neg_of_pos one_pos).not_ge (hrec.x_nonneg hy)
  rcases recedes_or_exists_move hv hback g with hrec | ⟨t, hin, hg, h, hh, hne, htight⟩
  · exact .inl ⟨⟨1, 0⟩, .inl rfl, hrec⟩
  · have ha : h.a ≠ 0 := by simpa [Line.valueAt] using hne
    rcases recedes_along_or_exists_corner hx hin hh ha htight g with ⟨d, hd, hrec⟩ | ⟨w, hw, hgw⟩
    · exact .inl ⟨d, .inr ⟨h, hh, hd⟩, hrec⟩
    · exact .inr ⟨w, hw, hg.trans hgw⟩

end LinProg
