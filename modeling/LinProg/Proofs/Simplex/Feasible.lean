import LinProg.Proofs.Problem.Optimality
import LinProg.Proofs.Simplex.Initial

/-!
# Points that satisfy a problem as solutions of its first tableau

A point satisfies the constraints exactly when it extends to non-negative values of all columns
that solve the first tableau with the artificial columns at zero. With a tolerance, the auxiliary
columns may miss their signs by as much as the constraints may be missed.
-/
namespace LinProg
open Finset
variable {K : Type} [Field K] [LinearOrder K] [IsStrictOrderedRing K]

/-- The amount added to the left-hand side of a constraint is one that it forgives. -/
def Relation.Forgives (r : Relation) (amount tolerance : K) : Prop :=
  match r with
  | le => -tolerance ≤ amount
  | ge => amount ≤ tolerance
  | eq => |amount| ≤ tolerance

theorem Relation.holds_iff_forgives (r : Relation) {lhs rhs amount : K} (h : lhs + amount = rhs)
    (t : K) : r.holds lhs rhs t = true ↔ r.Forgives amount t := by
  subst h
  cases r with
  | le => rw [holds_le, Forgives]; constructor <;> intro h <;> linarith
  | ge => rw [holds_ge, Forgives]; constructor <;> intro h <;> linarith
  | eq => rw [holds_eq, Forgives, sub_add_cancel_left, abs_neg]

theorem Constraint.standardized_holdsAt (c : Constraint K) (x : List K) (t : K) :
    c.standardized.holdsAt x t = c.holdsAt x t := by
  unfold standardized
  split_ifs
  · rw [holdsAt, Scalar.dot_map_neg, Relation.holds_flipped_neg]
    rfl
  · rfl

omit [IsStrictOrderedRing K] in
theorem Constraint.length_standardized (c : Constraint K) :
    c.standardized.coefficients.length = c.coefficients.length := by
  unfold standardized
  split_ifs <;> simp

/-- Standard form leaves no right-hand side negative. -/
theorem Constraint.standardized_rhs_nonneg (c : Constraint K) : 0 ≤ c.standardized.rhs := by
  unfold standardized
  split_ifs with h
  · exact (neg_pos.mpr h).le
  · exact not_lt.mp h

namespace Problem
variable {p : Problem K}

omit [IsStrictOrderedRing K] in
theorem length_standardRow (hp : p.validate = .ok ()) {i : ℕ} (hi : i < p.standardRows.length) :
    p.standardRows[i].coefficients.length = p.size := by
  simp only [standardRows, List.getElem_map, Constraint.length_standardized]
  exact (validate_exact.mp hp).2 _ (List.getElem_mem _)

theorem initialRows_rhs_nonneg (p : Problem K) : ∀ r ∈ p.initialRows, 0 ≤ r.rhs := by
  intro r hr
  obtain ⟨i, hi, rfl⟩ := List.getElem_of_mem hr
  simp only [getElem_initialRows hi, standardRows, List.getElem_map]
  exact Constraint.standardized_rhs_nonneg _

omit [IsStrictOrderedRing K] in
theorem solves_initialRows_iff (hp : p.validate = .ok ()) (y : ℕ → K) :
    Solves p.columns.length p.initialRows y ↔ ∀ i (hi : i < p.standardRows.length),
      Scalar.dot p.standardRows[i].coefficients (p.pointOf y) +
        p.standardRows[i].relation.imbalance i (p.columnValue y) = p.standardRows[i].rhs := by
  have hrow (i : ℕ) (hi : i < p.standardRows.length) :
      (getElem p.initialRows i (by simpa using hi)).Holds p.columns.length y ↔
        Scalar.dot p.standardRows[i].coefficients (p.pointOf y) +
          p.standardRows[i].relation.imbalance i (p.columnValue y) = p.standardRows[i].rhs := by
    rw [Row.Holds, initialRows_lhs hi (length_standardRow hp hi), getElem_initialRows]
  rw [solves_iff_getElem]
  constructor
  · intro h i hi
    exact (hrow i hi).mp (h i (by simpa using hi))
  · intro h i hi
    exact (hrow i (by simpa using hi)).mpr (h i (by simpa using hi))

theorem satisfiedBy_iff_standardRows (p : Problem K) (x : List K) (t : K) :
    p.satisfiedBy x t = true ↔ x.length = p.size ∧ (∀ v ∈ x, -t ≤ v) ∧
      ∀ i (hi : i < p.standardRows.length), p.standardRows[i].holdsAt x t = true := by
  rw [← List.forall_mem_iff_getElem (p := fun c : Constraint K => c.holdsAt x t = true)]
  simp [satisfiedBy, standardRows, Constraint.standardized_holdsAt, and_assoc]

/-- A solution of the first tableau gives a point that misses the problem by no more than the
tolerance exactly when the variables and the auxiliary columns miss their signs by no more. -/
theorem satisfiedBy_pointOf_iff (hp : p.validate = .ok ()) {y : ℕ → K}
    (hy : Solves p.columns.length p.initialRows y) (t : K) :
    p.satisfiedBy (p.pointOf y) t = true ↔ (∀ j < p.size, -t ≤ y j) ∧
      ∀ i (hi : i < p.standardRows.length),
        p.standardRows[i].relation.Forgives
          (p.standardRows[i].relation.imbalance i (p.columnValue y)) t := by
  have hrows := (solves_initialRows_iff hp y).mp hy
  have hforgives (i : ℕ) (hi : i < p.standardRows.length) :
      p.standardRows[i].holdsAt (p.pointOf y) t = true ↔ p.standardRows[i].relation.Forgives
        (p.standardRows[i].relation.imbalance i (p.columnValue y)) t :=
    Relation.holds_iff_forgives _ (hrows i hi) t
  rw [satisfiedBy_iff_standardRows]
  constructor
  · rintro ⟨_, hpos, hall⟩
    exact ⟨fun j hj => hpos _ (List.mem_map_of_mem (List.mem_range.mpr hj)),
      fun i hi => (hforgives i hi).mp (hall i hi)⟩
  · rintro ⟨hpos, hall⟩
    refine ⟨by simp [pointOf], fun v hv => ?_, fun i hi => (hforgives i hi).mpr (hall i hi)⟩
    obtain ⟨j, hj, rfl⟩ := List.mem_map.mp hv
    exact hpos j (List.mem_range.mp hj)

/-- Non-negative values that solve the first tableau without artificial columns satisfy the
problem. -/
theorem isFeasible_pointOf (hp : p.validate = .ok ()) {y : ℕ → K}
    (hy : Solves p.columns.length p.initialRows y) (hpos : ∀ j, 0 ≤ y j)
    (hart : ∀ c ∈ p.artificialColumns, p.columnValue y c = 0) : p.IsFeasible (p.pointOf y) := by
  rw [IsFeasible, satisfiedBy_pointOf_iff hp hy]
  refine ⟨fun j _ => by simpa using hpos j, fun i hi => ?_⟩
  cases hr : p.standardRows[i].relation with
  | le =>
    rw [Relation.Forgives, neg_zero]
    exact hpos _
  | ge =>
    have h := hart (.artificial i) (mem_artificialColumns.mpr ⟨i, hi, by rw [hr]; rfl⟩)
    rw [Relation.Forgives, Relation.imbalance, h, zero_sub]
    exact neg_nonpos.mpr (hpos _)
  | eq =>
    have h := hart (.artificial i) (mem_artificialColumns.mpr ⟨i, hi, by rw [hr]; rfl⟩)
    rw [Relation.Forgives, Relation.imbalance, h, abs_zero]

/-- What a row leaves over at a point. -/
def slackAt (p : Problem K) (x : List K) (row : ℕ) : K :=
  p.standardRows[row]?.elim 0 fun c => c.rhs - Scalar.dot c.coefficients x

/-- The value of a column at a point that satisfies the problem. -/
def columnAt (p : Problem K) (x : List K) : Column → K
  | .decision j => x[j]?.getD 0
  | .slack i => p.slackAt x i
  | .surplus i => -p.slackAt x i
  | .artificial _ => 0

/-- The values of all columns at a point that satisfies the problem. -/
def extend (p : Problem K) (x : List K) (j : ℕ) : K := p.columns[j]?.elim 0 (p.columnAt x)

omit [IsStrictOrderedRing K] in
theorem slackAt_eq {i : ℕ} (hi : i < p.standardRows.length) (x : List K) :
    p.slackAt x i = p.standardRows[i].rhs - Scalar.dot p.standardRows[i].coefficients x := by
  rw [slackAt, List.getElem?_eq_getElem hi, Option.elim_some]

omit [IsStrictOrderedRing K] in
/-- A solution without artificial columns has in every column the value that its point asks for. -/
theorem columnValue_eq_columnAt (hp : p.validate = .ok ()) {y : ℕ → K}
    (hy : Solves p.columns.length p.initialRows y)
    (hart : ∀ c ∈ p.artificialColumns, p.columnValue y c = 0) {c : Column} (hc : c ∈ p.columns) :
    p.columnValue y c = p.columnAt (p.pointOf y) c := by
  have hrows := (solves_initialRows_iff hp y).mp hy
  have hslack (i : ℕ) (hi : i < p.standardRows.length) : p.slackAt (p.pointOf y) i =
      p.standardRows[i].relation.imbalance i (p.columnValue y) := by
    rw [slackAt_eq hi, ← hrows i hi, add_sub_cancel_left]
  rcases List.mem_append.mp hc with hreal | hartificial
  · rcases mem_realColumns.mp hreal with ⟨j, hj, rfl⟩ | ⟨i, hi, hc⟩
    · rw [columnValue, idxOf_decision hj, columnAt, getElem?_pointOf hj, Option.getD_some]
    · rcases Relation.slackColumn?_eq_some_iff.mp hc with ⟨hr, rfl⟩ | ⟨hr, rfl⟩
      · rw [columnAt, hslack i hi, hr, Relation.imbalance]
      · have hzero := hart (.artificial i) (mem_artificialColumns.mpr ⟨i, hi, by rw [hr]; rfl⟩)
        rw [columnAt, hslack i hi, hr, Relation.imbalance, hzero, zero_sub, neg_neg]
  · obtain ⟨i, hi, hc⟩ := mem_artificialColumns.mp hartificial
    obtain ⟨_, rfl⟩ := Relation.artificialColumn?_eq_some_iff.mp hc
    rw [hart _ hartificial, columnAt]

omit [IsStrictOrderedRing K] in
/-- The values of the columns at a point are the point, what the rows leave over, and zeros. -/
theorem map_columnAt {x : List K} (hx : x.length = p.size) : p.columns.map (p.columnAt x) =
    x ++ (p.realColumns.drop p.size).map (p.columnAt x) ++
      List.replicate p.artificialColumns.length 0 := by
  have hvariables : (p.realColumns.take p.size).map (p.columnAt x) = x := by
    apply List.ext_getElem
    · simp [realColumns, hx]
    · intro j _ hj
      simp [realColumns, columnAt, hj]
  have hartificial : p.artificialColumns.map (p.columnAt x) =
      List.replicate p.artificialColumns.length 0 := by
    apply List.eq_replicate_iff.mpr
    constructor
    · exact List.length_map _
    · intro v hv
      obtain ⟨c, hc, rfl⟩ := List.mem_map.mp hv
      obtain ⟨i, hi, hc⟩ := mem_artificialColumns.mp hc
      obtain ⟨_, rfl⟩ := Relation.artificialColumn?_eq_some_iff.mp hc
      rfl
  rw [columns, List.map_append, hartificial]
  nth_rewrite 1 [← List.take_append_drop p.size p.realColumns]
  rw [List.map_append, hvariables]

omit [IsStrictOrderedRing K] in
theorem columnValue_extend {x : List K} {c : Column} (hc : c ∈ p.columns) :
    p.columnValue (p.extend x) c = p.columnAt x c := by
  have hlen := List.idxOf_lt_length_iff.mpr hc
  rw [columnValue, extend, List.getElem?_eq_getElem hlen, Option.elim_some, List.getElem_idxOf]

omit [IsStrictOrderedRing K] in
theorem pointOf_extend {x : List K} (hx : x.length = p.size) : p.pointOf (p.extend x) = x := by
  refine List.ext_getElem? fun j => ?_
  rcases lt_or_ge j p.size with hj | hj
  · rw [getElem?_pointOf hj, extend, getElem?_decision hj]
    simp [columnAt, hx, hj]
  · rw [List.getElem?_eq_none (by simpa [pointOf] using hj), List.getElem?_eq_none (hx ▸ hj)]

/-- Every point that satisfies the problem extends to a solution of the first tableau. -/
theorem extend_solves (hp : p.validate = .ok ()) {x : List K} (hx : p.IsFeasible x) :
    Solves p.columns.length p.initialRows (p.extend x) := by
  obtain ⟨hlen, _, hrows⟩ := (satisfiedBy_iff_standardRows p x 0).mp hx
  rw [solves_initialRows_iff hp, pointOf_extend hlen]
  intro i hi
  have hslack := slackAt_eq hi x
  cases hr : p.standardRows[i].relation with
  | le =>
    rw [Relation.imbalance, columnValue_extend (slackColumn?_mem hi (by rw [hr]; rfl)), columnAt,
      hslack]
    ring
  | ge =>
    rw [Relation.imbalance, columnValue_extend (artificialColumn?_mem hi (by rw [hr]; rfl)),
      columnValue_extend (slackColumn?_mem hi (by rw [hr]; rfl)), columnAt, columnAt, hslack]
    ring
  | eq =>
    rw [Relation.imbalance, columnValue_extend (artificialColumn?_mem hi (by rw [hr]; rfl)),
      columnAt, add_zero]
    have h := hrows i hi
    rwa [Constraint.holdsAt, hr, Relation.holds_zero_iff] at h

theorem columnAt_nonneg {x : List K} (hx : p.IsFeasible x) {c : Column} (hc : c ∈ p.columns) :
    0 ≤ p.columnAt x c := by
  obtain ⟨_, hpos, hrows⟩ := (satisfiedBy_iff_standardRows p x 0).mp hx
  rcases List.mem_append.mp hc with hc | hc
  · rcases mem_realColumns.mp hc with ⟨j, _, rfl⟩ | ⟨i, hi, hc⟩
    · rw [columnAt]
      cases hj : x[j]? with
      | none => exact le_rfl
      | some v => simpa using hpos v (List.mem_of_getElem? hj)
    · have h := hrows i hi
      rcases Relation.slackColumn?_eq_some_iff.mp hc with ⟨hr, rfl⟩ | ⟨hr, rfl⟩
      · rw [Constraint.holdsAt, hr, Relation.holds_zero_iff, Relation.Holds] at h
        rw [columnAt, slackAt_eq hi]
        exact sub_nonneg.mpr h
      · rw [Constraint.holdsAt, hr, Relation.holds_zero_iff, Relation.Holds] at h
        rw [columnAt, slackAt_eq hi, neg_sub]
        exact sub_nonneg.mpr h
  · obtain ⟨i, hi, hc⟩ := mem_artificialColumns.mp hc
    obtain ⟨_, rfl⟩ := Relation.artificialColumn?_eq_some_iff.mp hc
    exact le_rfl

theorem extend_nonneg {x : List K} (hx : p.IsFeasible x) (j : ℕ) : 0 ≤ p.extend x j := by
  rw [extend]
  cases hj : p.columns[j]? with
  | none => exact le_rfl
  | some c => exact columnAt_nonneg hx (List.mem_of_getElem? hj)

omit [IsStrictOrderedRing K] in
/-- At a point that satisfies the problem no artificial column is needed. -/
theorem extend_artificial (x : List K) {j : ℕ} (hj : p.realColumns.length ≤ j) :
    p.extend x j = 0 := by
  rw [extend]
  cases hc : p.columns[j]? with
  | none => rfl
  | some c =>
    obtain ⟨hlen, rfl⟩ := List.getElem?_eq_some_iff.mp hc
    have h := (isArtificial_getElem_iff hlen).mpr hj
    rw [Option.elim_some]
    cases hcol : p.columns[j] with
    | artificial i => rfl
    | _ => simp [hcol, Column.isArtificial] at h

end Problem
end LinProg
