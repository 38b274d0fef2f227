import LinProg.Solver.Solution
import Mathlib.Tactic.Common

/-!
# What checking a problem finds

A problem is at fault for the lengths of its rows and for numbers that are not finite, and for
nothing else. Toggles change no length, so a problem is at fault exactly if its normal form is,
provided that the magnitude of a number with a minus sign is finite exactly if the number is.
Nothing else is assumed of the numbers, and nothing is claimed of which fault is the first.
-/
namespace LinProg
variable {K : Type} [Scalar K]

theorem Constraint.isSome_fault? (n : ℕ) (c : Constraint K) : (c.fault? n).isSome =
    (decide (c.coefficients.length ≠ n) ||
      !(Scalar.isFinite c.rhs && c.coefficients.all Scalar.isFinite)) := by
  unfold fault?
  split_ifs with hlength hfinite
  · simp [hlength]
  · rw [hfinite]
    simp [hlength]
  · rw [Bool.eq_false_iff.mpr hfinite]
    simp

namespace Problem

theorem isSome_fault? (p : Problem K) : p.fault?.isSome =
    (decide (p.size = 0) || !p.objective.coefficients.all Scalar.isFinite ||
      p.constraints.any fun c => (c.fault? p.size).isSome) := by
  unfold fault?
  split_ifs with hsize hfinite
  · simp [hsize]
  · simp [hsize, hfinite, List.isSome_findSome?]
  · simp [hsize, hfinite]

/-- Every fault of a problem is reported as invalid input. -/
theorem status_of_fault? {p : Problem K} {e : Failure} (h : p.fault? = some e) :
    e.status = .invalidInput := by
  unfold fault? at h
  split_ifs at h
  · cases h
    rfl
  · obtain ⟨c, _, hc⟩ := List.exists_of_findSome?_eq_some h
    unfold Constraint.fault? at hc
    split_ifs at hc
    all_goals
      cases hc
      rfl
  · cases h
    rfl

theorem validate_eq_error_iff {p : Problem K} {e : Failure} :
    p.validate = .error e ↔ p.fault? = some e := by
  unfold validate
  cases p.fault? <;> simp

end Problem

section
variable (hfinite : ∀ c : K, Scalar.isFinite (-Scalar.abs c) = Scalar.isFinite c)
include hfinite

theorem Toggle.all_isFinite_apply (t : Toggle) (row : List K) :
    (t.apply row).all Scalar.isFinite = row.all Scalar.isFinite := by
  cases t with
  | plus => rw [apply_plus]
  | minus =>
    cases row with
    | nil => rfl
    | cons first rest => simp only [apply, List.all_cons, List.all_map, Function.comp_def, hfinite]

theorem Constraint.isSome_fault?_apply (t : Toggle) (n : ℕ) (c : Constraint K) :
    ({ c with coefficients := t.apply c.coefficients }.fault? n).isSome = (c.fault? n).isSome := by
  rw [isSome_fault?, isSome_fault?, Toggle.length_apply, t.all_isFinite_apply hfinite]

theorem any_fault?_zipWith {constraints : List (Constraint K)} {toggles : List Toggle}
    (hlength : toggles.length = constraints.length) (n : ℕ) :
    (List.zipWith (fun c (t : Toggle) => { c with coefficients := t.apply c.coefficients })
        constraints toggles).any (fun c => (c.fault? n).isSome) =
      constraints.any fun c => (c.fault? n).isSome := by
  induction constraints generalizing toggles with
  | nil => rfl
  | cons c constraints ih =>
    obtain ⟨t, toggles, rfl⟩ := List.exists_cons_of_length_eq_add_one hlength
    simp only [List.zipWith_cons_cons, List.any_cons, c.isSome_fault?_apply hfinite,
      ih (Nat.succ.inj hlength)]

namespace Problem

theorem any_fault?_toggledConstraints (p : Problem K) (n : ℕ) :
    (p.toggledConstraints.any fun c => (c.fault? n).isSome) =
      p.constraints.any fun c => (c.fault? n).isSome := by
  unfold toggledConstraints
  split
  · rfl
  · split_ifs with hlength
    · exact any_fault?_zipWith hfinite hlength n
    · rfl

/-- Normalising a problem neither mends a fault nor makes one. -/
theorem isSome_fault?_normalized (p : Problem K) :
    p.normalized.fault?.isSome = p.fault?.isSome := by
  have hobjective :
      p.toggledObjective.all Scalar.isFinite = p.objective.coefficients.all Scalar.isFinite := by
    unfold toggledObjective
    split
    · rfl
    · exact Toggle.all_isFinite_apply hfinite _ _
  have hconstraints := p.any_fault?_toggledConstraints hfinite p.size
  rw [isSome_fault?, isSome_fault?, size_normalized]
  simp only [normalized, hobjective, hconstraints]

end Problem
end
end LinProg
