import LinProg.Plane.Optimum
import LinProg.Proofs.Scalar.OrderedField
import LinProg.Simplex.Tableau
import Mathlib.Tactic.Linarith

/-!
# Feasible points and optima

What the answers to a problem mean where the numbers are exact: which points satisfy it, when one
of them is best, and when no value of the objective is out of reach. The methods are not mentioned
here.
-/
namespace LinProg
variable {K : Type} [Field K] [LinearOrder K] [IsStrictOrderedRing K]

/-- The relation between two numbers without a tolerance. -/
def Relation.Holds : Relation → K → K → Prop
  | le, a, b => a ≤ b
  | ge, a, b => b ≤ a
  | eq, a, b => a = b

namespace Relation

omit [IsStrictOrderedRing K] in
@[simp] theorem holds_le (a b t : K) : le.holds a b t = true ↔ a ≤ b + t := by simp [holds]

omit [IsStrictOrderedRing K] in
@[simp] theorem holds_ge (a b t : K) : ge.holds a b t = true ↔ b - t ≤ a := by simp [holds]

omit [IsStrictOrderedRing K] in
@[simp] theorem holds_eq (a b t : K) : eq.holds a b t = true ↔ |a - b| ≤ t := by simp [holds]

theorem holds_zero_iff (r : Relation) (a b : K) : r.holds a b 0 = true ↔ r.Holds a b := by
  cases r <;> simp [Holds, sub_eq_zero]

/-- Negating both sides flips a relation, whatever the tolerance. -/
theorem holds_flipped_neg (r : Relation) (a b t : K) :
    r.flipped.holds (-a) (-b) t = r.holds a b t := by
  rw [Bool.eq_iff_iff]
  cases r with
  | le => simp only [flipped, holds_ge, holds_le]; constructor <;> intro h <;> linarith
  | ge => simp only [flipped, holds_ge, holds_le]; constructor <;> intro h <;> linarith
  | eq => simp only [flipped, holds_eq, neg_sub_neg, abs_sub_comm]

/-- What holds within a tolerance holds within a larger one. -/
theorem holds_mono {r : Relation} {a b s t : K} (hst : s ≤ t) (h : r.holds a b s = true) :
    r.holds a b t = true := by
  cases r with
  | le => rw [holds_le] at h ⊢; linarith
  | ge => rw [holds_ge] at h ⊢; linarith
  | eq => rw [holds_eq] at h ⊢; exact h.trans hst

end Relation

/-- The value of an objective whose maximised form has the given value. -/
def Sense.signed : Sense → K → K
  | max, a => a
  | min, a => -a

omit [IsStrictOrderedRing K] in
theorem Sense.abs_signed_sub_signed (s : Sense) (a b : K) :
    |s.signed a - s.signed b| = |a - b| := by
  cases s with
  | max => rfl
  | min => rw [signed, signed, neg_sub_neg, abs_sub_comm]

theorem Sense.better_signed_iff (s : Sense) (a b : K) :
    s.better (s.signed a) (s.signed b) = true ↔ b < a := by
  cases s with
  | max => exact decide_eq_true_iff
  | min => exact decide_eq_true_iff.trans neg_lt_neg_iff

omit [LinearOrder K] [IsStrictOrderedRing K] in
@[simp] theorem Sense.signed_signed (s : Sense) (a : K) : s.signed (s.signed a) = a := by
  cases s <;> simp [signed]

theorem Sense.better_iff (s : Sense) (a b : K) : s.better a b = true ↔ s.signed b < s.signed a := by
  rw [← better_signed_iff, signed_signed, signed_signed]

/-- What grows at a positive rate passes every bound. -/
theorem exists_lt_add_mul (a : K) {b : K} (hb : 0 < b) (bound : K) :
    ∃ t, 0 ≤ t ∧ bound < a + t * b := by
  refine ⟨max 0 ((bound - a) / b) + 1, add_nonneg (le_max_left _ _) zero_le_one, ?_⟩
  have hle := (div_le_iff₀ hb).mp (le_max_right 0 ((bound - a) / b))
  linarith

namespace Problem

/-- The point satisfies every constraint exactly and has no negative coordinate. -/
def IsFeasible (p : Problem K) (x : List K) : Prop := p.satisfiedBy x 0 = true

instance (p : Problem K) (x : List K) : Decidable (p.IsFeasible x) :=
  inferInstanceAs (Decidable (p.satisfiedBy x 0 = true))

/-- The point satisfies the problem, has the given value, and no other one is better. -/
structure IsOptimum (p : Problem K) (x : List K) (v : K) : Prop where
  feasible : p.IsFeasible x
  value_eq : v = p.objectiveAt x
  unbeaten : ∀ y, p.IsFeasible y → p.objective.sense.better (p.objectiveAt y) v = false

/-- Every value of the objective is beaten by a point that satisfies the problem. -/
def IsUnlimited (p : Problem K) : Prop :=
  ∀ bound, ∃ x, p.IsFeasible x ∧ p.objective.sense.better (p.objectiveAt x) bound = true

omit [IsStrictOrderedRing K] in
/-- No problem has both an optimum and values beyond every bound. -/
theorem IsOptimum.not_isUnlimited {p : Problem K} {x : List K} {v : K} (h : p.IsOptimum x v) :
    ¬ p.IsUnlimited := by
  intro hfree
  obtain ⟨y, hy, hbetter⟩ := hfree v
  rw [h.unbeaten y hy] at hbetter
  exact Bool.false_ne_true hbetter

theorem isFeasible_iff (p : Problem K) (x : List K) :
    p.IsFeasible x ↔ x.length = p.size ∧ (∀ v ∈ x, 0 ≤ v) ∧
      ∀ c ∈ p.constraints, c.relation.Holds (Scalar.dot c.coefficients x) c.rhs := by
  simp [IsFeasible, satisfiedBy, Constraint.holdsAt, Relation.holds_zero_iff, and_assoc]

theorem satisfiedBy_mono {p : Problem K} {x : List K} {s t : K} (hst : s ≤ t)
    (h : p.satisfiedBy x s = true) : p.satisfiedBy x t = true := by
  simp only [satisfiedBy, Bool.and_eq_true, List.all_eq_true, decide_eq_true_eq] at h ⊢
  refine ⟨⟨h.1.1, fun v hv => ?_⟩, fun c hc => Relation.holds_mono hst (h.2 c hc)⟩
  exact (neg_le_neg hst).trans (h.1.2 v hv)

omit [IsStrictOrderedRing K] in
/-- Exact numbers are finite, so only the lengths of the rows can be wrong. -/
theorem validate_exact {p : Problem K} :
    p.validate = .ok () ↔ p.size ≠ 0 ∧ ∀ c ∈ p.constraints, c.coefficients.length = p.size := by
  have hc (c : Constraint K) : c.fault? p.size = none ↔ c.coefficients.length = p.size := by
    unfold Constraint.fault?
    split <;> simp_all
  rw [validate_eq_ok]
  unfold fault?
  split_ifs with h <;> simp_all

omit [IsStrictOrderedRing K] in
/-- The value to be maximised at a point. -/
theorem dot_maximized (p : Problem K) (x : List K) :
    Scalar.dot p.maximized x = p.objective.sense.signed (p.objectiveAt x) := by
  unfold maximized objectiveAt
  cases p.objective.sense with
  | max => rfl
  | min => exact Scalar.dot_map_neg _ _

end Problem
end LinProg
