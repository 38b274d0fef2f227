import LinProg.Plane.Geometry
import LinProg.Proofs.Scalar.OrderedField
import Mathlib.Tactic.Positivity

/-!
# Distinct points

A list of points is thinned by leaving out those that are near to a point kept before them. To be
near is not transitive, so which points are kept depends on their order; but no kept point is near
to one kept before it, and every point is kept or near to a kept one. For this nothing is assumed
of the numbers. If they are exact, every point is near to itself, so that no point is kept twice.
-/
namespace LinProg
namespace Point

section
variable {K : Type} [Scalar K]

/-- The second point is not near to the first. -/
def Apart (tolerance : K) (p q : Point K) : Prop := near tolerance p q = false

theorem exists_addDistinct_eq (tolerance : K) (kept points : List (Point K)) :
    ∃ added, addDistinct tolerance kept points = kept ++ added ∧ added.Sublist points := by
  induction points generalizing kept with
  | nil => exact ⟨[], (List.append_nil kept).symm, List.Sublist.refl []⟩
  | cons p rest ih =>
    rw [addDistinct]
    split_ifs with hnear
    · obtain ⟨added, heq, hsub⟩ := ih kept
      exact ⟨added, heq, hsub.cons p⟩
    · obtain ⟨added, heq, hsub⟩ := ih (kept ++ [p])
      exact ⟨p :: added, by rw [heq, List.append_assoc, List.singleton_append],
        hsub.cons_cons p⟩

theorem distinct_sublist (tolerance : K) (points : List (Point K)) :
    (distinct tolerance points).Sublist points := by
  obtain ⟨added, heq, hsub⟩ := exists_addDistinct_eq tolerance [] points
  rwa [distinct, heq]

theorem pairwise_addDistinct {tolerance : K} {kept : List (Point K)}
    (hkept : kept.Pairwise (Apart tolerance)) (points : List (Point K)) :
    (addDistinct tolerance kept points).Pairwise (Apart tolerance) := by
  induction points generalizing kept with
  | nil => exact hkept
  | cons p rest ih =>
    rw [addDistinct]
    split_ifs with hnear
    · exact ih hkept
    · refine ih (List.pairwise_append.mpr ⟨hkept, List.pairwise_singleton _ _, ?_⟩)
      intro q hq w hw
      rw [List.mem_singleton.mp hw]
      exact Bool.eq_false_iff.mpr fun h => hnear (List.any_eq_true.mpr ⟨q, hq, h⟩)

/-- No kept point is near to one that was kept before it. -/
theorem pairwise_distinct (tolerance : K) (points : List (Point K)) :
    (distinct tolerance points).Pairwise (Apart tolerance) :=
  pairwise_addDistinct List.Pairwise.nil points

/-- A point is kept unless a kept point is near to it. -/
theorem mem_or_near_addDistinct (tolerance : K) (kept : List (Point K)) {points : List (Point K)}
    {p : Point K} (hp : p ∈ points) : p ∈ addDistinct tolerance kept points ∨
      ∃ q ∈ addDistinct tolerance kept points, near tolerance q p = true := by
  induction points generalizing kept with
  | nil => exact absurd hp List.not_mem_nil
  | cons w rest ih =>
    rw [addDistinct]
    rcases List.mem_cons.mp hp with rfl | hrest
    · split_ifs with hnear
      · obtain ⟨added, heq, _⟩ := exists_addDistinct_eq tolerance kept rest
        obtain ⟨q, hq, hqp⟩ := List.any_eq_true.mp hnear
        exact .inr ⟨q, by rw [heq]; exact List.mem_append_left _ hq, hqp⟩
      · obtain ⟨added, heq, _⟩ := exists_addDistinct_eq tolerance (kept ++ [p]) rest
        exact .inl (by rw [heq]; simp)
    · split_ifs
      · exact ih kept hrest
      · exact ih (kept ++ [w]) hrest

theorem mem_or_near_distinct (tolerance : K) {points : List (Point K)} {p : Point K}
    (hp : p ∈ points) : p ∈ distinct tolerance points ∨
      ∃ q ∈ distinct tolerance points, near tolerance q p = true :=
  mem_or_near_addDistinct tolerance [] hp

theorem distinct_eq_nil_iff {tolerance : K} {points : List (Point K)} :
    distinct tolerance points = [] ↔ points = [] := by
  constructor
  · intro h
    refine List.eq_nil_iff_forall_not_mem.mpr fun p hp => ?_
    rcases mem_or_near_distinct tolerance hp with hmem | ⟨q, hq, _⟩
    · exact absurd (h ▸ hmem) List.not_mem_nil
    · exact absurd (h ▸ hq) List.not_mem_nil
  · rintro rfl
    rfl

theorem near_comm (hdist : ∀ a b : K, Scalar.abs (a - b) = Scalar.abs (b - a)) (tolerance : K)
    (p q : Point K) : near tolerance p q = near tolerance q p := by
  rw [near, near, hdist p.x q.x, hdist p.y q.y]

end

section
variable {K : Type} [Field K] [LinearOrder K]

theorem near_iff (tolerance : K) (p q : Point K) :
    p.near tolerance q = true ↔ |p.x - q.x| ≤ tolerance ∧ |p.y - q.y| ≤ tolerance := by
  simp [near]

variable [IsStrictOrderedRing K]

theorem sameTolerance_pos : (0 : K) < sameTolerance := by
  rw [sameTolerance, Scalar.ofDecimal_exact]
  positivity

theorem near_self (p : Point K) : p.near sameTolerance p = true := by
  simp [near_iff, sameTolerance_pos.le]

theorem nodup_distinct (points : List (Point K)) : (distinct sameTolerance points).Nodup := by
  refine (pairwise_distinct sameTolerance points).imp fun {p q} hapart hpq => ?_
  rw [hpq, Apart, near_self] at hapart
  cases hapart

end

end Point
end LinProg
