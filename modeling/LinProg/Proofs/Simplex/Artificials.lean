import LinProg.Proofs.Simplex.Reached

/-!
# Artificial columns after the first phase

A first phase that is accepted leaves artificial columns at level zero. Those that no real column
can replace stay basic in rows that come to nothing, so the second phase neither moves them nor
exchanges them. No tolerance is granted here.
-/
namespace LinProg

theorem filter_set {A : Type} {keep : A → Bool} {a : A} (ha : keep a = false) {xs : List A} {i : ℕ}
    (hi : i < xs.length) (hbefore : keep xs[i] = false) :
    (xs.set i a).filter keep = xs.filter keep := by
  induction xs generalizing i with
  | nil => rfl
  | cons x xs ih =>
    cases i with
    | zero =>
      rw [List.getElem_cons_zero] at hbefore
      simp [ha, hbefore]
    | succ i =>
      rw [List.set_cons_succ, List.filter_cons, List.filter_cons,
        ih (Nat.lt_of_succ_lt_succ hi) hbefore]

namespace Problem

section
variable {K : Type} [Scalar K]

/-- The artificial columns for which rows are solved, from the first row on. -/
def basicArtificials (p : Problem K) (rows : List (Row K)) : List ℕ :=
  (rows.map Row.basic).filter p.isArtificialAt

variable {p : Problem K}

/-- An exchange of real columns keeps the artificial ones that are basic. -/
theorem basicArtificials_pivot {rows : List (Row K)} {row column : ℕ} (hrow : row < rows.length)
    (hbasic : rows[row].basic < p.realColumns.length) (hcolumn : column < p.realColumns.length) :
    p.basicArtificials (pivot rows row column) = p.basicArtificials rows := by
  rw [basicArtificials, map_basic_pivot hrow, filter_set (isArtificialAt_of_lt hcolumn)]
  · rfl
  · simpa using hrow
  · simpa using isArtificialAt_of_lt hbasic

end

variable {K : Type} [Field K] [LinearOrder K]

/-- The rows that are solved for artificial columns come to nothing, and the next pivot of a stage
is neither on such a column nor on such a row. -/
structure KeepsArtificials (p : Problem K) (s : Stage K) (rows : List (Row K)) : Prop where
  rhs_eq : ∀ r ∈ rows, p.isArtificialAt r.basic = true → r.rhs = 0
  entry_eq : ∀ r ∈ rows, p.isArtificialAt r.basic = true →
    ∀ j, p.isArtificialAt j = false → r.entry j = 0
  entering : ∀ column, s.entering? rows = some column → p.isArtificialAt column = false
  leaving : ∀ column row, s.entering? rows = some column →
    (s.choose rows column).leaving = some row →
      ∃ r, rows[row]? = some r ∧ p.isArtificialAt r.basic = false

variable {p : Problem K}

theorem IsReady.keepsArtificials {rows : List (Row K)} (h : p.IsReady rows) (limit : ℕ) :
    p.KeepsArtificials (p.stageTwo ⟨limit, 0, 0⟩) rows := by
  have hentering (column : ℕ) (hcolumn : (p.stageTwo ⟨limit, 0, 0⟩).entering? rows = some column) :
      column < p.realColumns.length := (Stage.entering?_eq_some hcolumn).1
  constructor
  · intro r hr hb
    exact h.settled.rhs_eq r hr (isArtificialAt_iff.mp hb).1
  · intro r hr hb j hj
    rcases Nat.lt_or_ge j p.realColumns.length with hreal | hreal
    · exact h.settled.entry_eq_of_mem hr (isArtificialAt_iff.mp hb).1 hreal
    · have hwidth : p.columns.length ≤ j := by
        by_contra hlt
        rw [isArtificialAt_iff.mpr ⟨hreal, Nat.lt_of_not_le hlt⟩] at hj
        cases hj
      rw [Row.entry, List.getElem?_eq_none (by rwa [h.canonical.width r hr]), Option.getD_none]
  · intro column hcolumn
    exact isArtificialAt_of_lt (hentering column hcolumn)
  · intro column row hcolumn hleaving
    obtain ⟨hrow, hb⟩ := h.settled.leaving_lt le_rfl (hentering column hcolumn) hleaving
    exact ⟨rows[row], List.getElem?_eq_getElem hrow, isArtificialAt_of_lt hb⟩

variable [IsStrictOrderedRing K]

/-- Every tableau of the second phase is ready for it and has the same artificial columns basic. -/
theorem IsReady.after {start here : List (Row K)} (h : p.IsReady start) {limit k : ℕ}
    (hk : (p.stageTwo ⟨limit, 0, 0⟩).after start k = some here) :
    p.IsReady here ∧ p.basicArtificials here = p.basicArtificials start := by
  refine Stage.after_induction (P := fun rows => p.IsReady rows ∧
    p.basicArtificials rows = p.basicArtificials start) ?_ ⟨h, rfl⟩ hk
  rintro rows column row ⟨hready, hsame⟩ hcolumn hleaving
  have hlt := (Stage.entering?_eq_some hcolumn).1
  obtain ⟨hrow, hb⟩ := hready.settled.leaving_lt le_rfl hlt hleaving
  exact ⟨hready.choose hcolumn hleaving, (basicArtificials_pivot hrow hb hlt).trans hsame⟩

/-- After a first phase that is accepted, artificial columns do no harm. The steps between the
phases move no column, and in every tableau of the second phase the same artificial columns are
basic, in rows that come to nothing and that no pivot touches. -/
theorem artificials_stay_harmless {limit : ℕ}
    (haccepted : p.phaseOneFailure? ⟨limit, 0, 0⟩ (p.firstLeg ⟨limit, 0, 0⟩) = none) :
    let first := (p.firstLeg ⟨limit, 0, 0⟩).rows
    let start := driveOut p.realColumns.length 0 first
    basicSolution start = basicSolution first ∧
      ∀ k here, (p.stageTwo ⟨limit, 0, 0⟩).after start k = some here →
        p.KeepsArtificials (p.stageTwo ⟨limit, 0, 0⟩) here ∧
          p.basicArtificials here = p.basicArtificials start := by
  have hvalue := (phaseOneFailure?_eq_none haccepted).2
  obtain ⟨_, hsettled, hrhs⟩ := p.settled_stageOne limit limit 0 hvalue
  constructor
  · exact (hsettled.driveOut hrhs).2.2
  · intro k here hk
    obtain ⟨hready, hsame⟩ := (p.isReady_driveOut limit limit 0 hvalue).after hk
    exact ⟨hready.keepsArtificials limit, hsame⟩

/-- The equation that is stated twice keeps its artificial column basic. -/
theorem artificials_stay_harmless_mixedRows :
    let start := driveOut mixedRows.realColumns.length 0 (mixedRows.firstLeg ⟨10, 0, 0⟩).rows
    mixedRows.phaseOneFailure? ⟨10, 0, 0⟩ (mixedRows.firstLeg ⟨10, 0, 0⟩) = none ∧
      mixedRows.basicArtificials start = [6] ∧
      basicSolution start = basicSolution (mixedRows.firstLeg ⟨10, 0, 0⟩).rows ∧
      ∀ k here, (mixedRows.stageTwo ⟨10, 0, 0⟩).after start k = some here →
        mixedRows.KeepsArtificials (mixedRows.stageTwo ⟨10, 0, 0⟩) here ∧
          mixedRows.basicArtificials here = mixedRows.basicArtificials start :=
  ⟨by decide +kernel, by decide +kernel, artificials_stay_harmless (by decide +kernel)⟩

end Problem
end LinProg
