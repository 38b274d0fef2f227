import LinProg.Proofs.Simplex.Tableaus

/-!
# Runs without a tolerance

Where no tolerance is granted the least ratio keeps the right-hand sides non-negative. The rows in
which an artificial column stays basic after the first phase are settled one after the other: their
right-hand sides are zero, and no real column has an entry in them. The second phase leaves such
rows alone.
-/
namespace LinProg
variable {K : Type} [Field K] [LinearOrder K]

/-- What a property of all rows asks of a pivot: the solved row has it and the others keep it. -/
theorem forall_mem_pivot {P : Row K → Prop} {rows : List (Row K)} {row column : ℕ}
    (hrow : row < rows.length) (hsolved : P (rows[row].solvedFor column))
    (hothers : ∀ r ∈ rows, P (r.eliminate (rows[row].solvedFor column) column)) :
    ∀ r ∈ pivot rows row column, P r := by
  intro r hr
  obtain ⟨i, hi, rfl⟩ := List.getElem_of_mem hr
  rw [getElem_pivot hrow]
  split_ifs
  · exact hsolved
  · exact hothers _ (List.getElem_mem _)

/-- A pivot on a row with the right-hand side zero moves no column. -/
theorem basicSolution_pivot {rows : List (Row K)} {row : ℕ} (hrow : row < rows.length)
    (hrhs : rows[row].rhs = 0) (column : ℕ) :
    basicSolution (pivot rows row column) = basicSolution rows := by
  funext j
  rw [basicSolution_eq_sum, basicSolution_eq_sum]
  congr 1
  apply List.ext_getElem
  · simp
  · intro i hi hi'
    rw [List.getElem_map, List.getElem_map, getElem_pivot hrow]
    by_cases hir : i = row
    · subst hir
      simp [hrhs]
    · simp [hir, Row.eliminate_rhs, hrhs]

/-- The rows in which an artificial column is basic have the right-hand side zero, and the first
of them have no entries in real columns. -/
structure Settled (real passed : ℕ) (rows : List (Row K)) : Prop where
  rhs_eq : ∀ r ∈ rows, real ≤ r.basic → r.rhs = 0
  entry_eq : ∀ i (hi : i < rows.length), i < passed → real ≤ rows[i].basic →
    ∀ j < real, rows[i].entry j = 0

namespace Settled
variable {real passed : ℕ} {rows : List (Row K)}

theorem entry_eq_of_mem (h : Settled real rows.length rows) {r : Row K} (hr : r ∈ rows)
    (hb : real ≤ r.basic) {j : ℕ} (hj : j < real) : r.entry j = 0 := by
  obtain ⟨i, hi, rfl⟩ := List.getElem_of_mem hr
  exact h.entry_eq i hi hi hb j hj

/-- A pivot on a real column settles its row and disturbs no settled one, as long as it moves no
right-hand side of an artificial row. -/
theorem pivot (h : Settled real passed rows) {row column : ℕ} (hrow : row < rows.length)
    (hcolumn : column < real)
    (hmove : ∀ r ∈ rows, real ≤ r.basic → r.entry column * rows[row].rhs = 0) :
    Settled real passed (pivot rows row column) := by
  refine ⟨forall_mem_pivot hrow (fun hb => absurd hcolumn hb.not_gt) fun r hr hb => ?_, ?_⟩
  · rw [Row.eliminate_basic] at hb
    rw [Row.eliminate_rhs, Row.solvedFor_rhs, mul_div_assoc', hmove r hr hb, h.rhs_eq r hr hb,
      zero_div, sub_zero]
  · intro i hi hpassed
    have hi' : i < rows.length := by simpa using hi
    rw [getElem_pivot hrow]
    split_ifs with hir
    · exact fun hb => absurd hcolumn hb.not_gt
    · intro hb j hj
      rw [Row.eliminate_basic] at hb
      have hzero := h.entry_eq i hi' hpassed hb
      rw [Row.eliminate_of_entry_eq_zero (hzero column hcolumn)]
      exact hzero j hj

theorem basicSolution_eq_zero (h : Settled real passed rows) {j : ℕ} (hj : real ≤ j) :
    basicSolution rows j = 0 := by
  refine Finset.sum_eq_zero fun i _ => ?_
  split_ifs with hb
  · exact h.rhs_eq _ (List.getElem_mem i.isLt) (hb ▸ hj)
  · rfl

/-- A real column that grows does not move the artificial ones. -/
theorem edge_eq_zero (h : Settled real rows.length rows) {column j : ℕ} (hcolumn : column < real)
    (hj : real ≤ j) : edge rows column j = 0 := by
  rw [edge, if_neg (hcolumn.trans_le hj).ne', zero_sub, neg_eq_zero]
  refine Finset.sum_eq_zero fun i _ => ?_
  split_ifs with hb
  · exact h.entry_eq_of_mem (List.getElem_mem i.isLt) (hb ▸ hj) hcolumn
  · rfl

/-- No row of an artificial column bounds a real one, so none of them leaves. -/
theorem leaving_lt (h : Settled real rows.length rows) {s : Stage K} (ht : 0 ≤ s.tolerance)
    {column row : ℕ} (hcolumn : column < real)
    (hleaving : (s.choose rows column).leaving = some row) :
    ∃ hrow : row < rows.length, rows[row].basic < real := by
  obtain ⟨hrow, hentry, _⟩ := Stage.leaving_eq_some hleaving
  refine ⟨hrow, not_le.mp fun hb => ?_⟩
  rw [h.entry_eq_of_mem (List.getElem_mem hrow) hb hcolumn] at hentry
  exact hentry.not_ge ht

theorem choose (h : Settled real rows.length rows) {s : Stage K} (hreal : s.eligible ≤ real)
    {column row : ℕ} (hcolumn : s.entering? rows = some column)
    (hleaving : (s.choose rows column).leaving = some row) :
    Settled real (LinProg.pivot rows row column).length (LinProg.pivot rows row column) := by
  have hlt := (Stage.entering?_eq_some hcolumn).1.trans_le hreal
  obtain ⟨hrow, _, _⟩ := Stage.leaving_eq_some hleaving
  rw [length_pivot]
  refine h.pivot hrow hlt fun r hr hb => ?_
  rw [h.entry_eq_of_mem hr hb hlt, zero_mul]

end Settled

variable [IsStrictOrderedRing K]

/-- A pivot on the row with the least ratio leaves every right-hand side non-negative. -/
theorem pivot_rhs_nonneg {rows : List (Row K)} (hpos : ∀ r ∈ rows, 0 ≤ r.rhs) {row column : ℕ}
    (hrow : row < rows.length) (hentry : 0 < rows[row].entry column)
    (hleast : ∀ r ∈ rows, 0 < r.entry column →
      rows[row].rhs / rows[row].entry column ≤ r.rhs / r.entry column) :
    ∀ r ∈ pivot rows row column, 0 ≤ r.rhs := by
  have hratio : 0 ≤ rows[row].rhs / rows[row].entry column :=
    div_nonneg (hpos _ (List.getElem_mem hrow)) hentry.le
  refine forall_mem_pivot hrow hratio fun r hr => ?_
  rw [Row.eliminate_rhs, Row.solvedFor_rhs, sub_nonneg]
  rcases lt_or_ge 0 (r.entry column) with hr0 | hr0
  · have h := (le_div_iff₀ hr0).mp (hleast r hr hr0)
    rwa [mul_comm] at h
  · exact (mul_nonpos_of_nonpos_of_nonneg hr0 hratio).trans (hpos r hr)

/-- Without a tolerance, such is the row that a stage chooses. -/
theorem Stage.choose_rhs_nonneg {s : Stage K} (ht : s.tolerance = 0) {rows : List (Row K)}
    {column row : ℕ} (hpos : ∀ r ∈ rows, 0 ≤ r.rhs)
    (hleaving : (s.choose rows column).leaving = some row) :
    ∀ r ∈ pivot rows row column, 0 ≤ r.rhs := by
  obtain ⟨hrow, hentry, hleast⟩ := leaving_eq_some hleaving
  rw [ht] at hentry hleast
  exact pivot_rhs_nonneg hpos hrow hentry hleast

theorem Stage.run_rhs_nonneg {s : Stage K} (ht : s.tolerance = 0) (left made : ℕ)
    {rows : List (Row K)} (hpos : ∀ r ∈ rows, 0 ≤ r.rhs) :
    ∀ r ∈ (s.run left made rows).rows, 0 ≤ r.rhs :=
  s.run_induction (P := fun rows => ∀ r ∈ rows, 0 ≤ r.rhs)
    (fun _ _ _ hpos _ hleaving => choose_rhs_nonneg ht hpos hleaving) left made hpos

/-- Each step between the phases settles one more row; no right-hand side moves. -/
theorem Settled.replaceArtificial {real passed : ℕ} {rows : List (Row K)}
    (h : Settled real passed rows) (hpos : ∀ r ∈ rows, 0 ≤ r.rhs) :
    Settled real (passed + 1) (replaceArtificial real 0 rows passed) ∧
      (∀ r ∈ LinProg.replaceArtificial real 0 rows passed, 0 ≤ r.rhs) ∧
      basicSolution (LinProg.replaceArtificial real 0 rows passed) = basicSolution rows := by
  obtain ⟨heq, hzero⟩ | ⟨column, hrow, hb, hcolumn, _, heq⟩ :=
    replaceArtificial_cases real 0 rows passed
  · rw [heq]
    refine ⟨⟨h.rhs_eq, fun i hi hlt hb j hj => ?_⟩, hpos, rfl⟩
    rcases Nat.lt_succ_iff_lt_or_eq.mp hlt with hlt | rfl
    · exact h.entry_eq i hi hlt hb j hj
    · exact abs_nonpos_iff.mp (entry_le_of_replaceArtificial le_rfl (hzero hi hb) hj)
  · have hrhs := h.rhs_eq _ (List.getElem_mem hrow) hb
    have hpivot := h.pivot hrow hcolumn fun r _ _ => by rw [hrhs, mul_zero]
    rw [heq]
    refine ⟨⟨hpivot.rhs_eq, fun i hi hlt => ?_⟩, ?_, basicSolution_pivot hrow hrhs column⟩
    · rcases Nat.lt_succ_iff_lt_or_eq.mp hlt with hlt | rfl
      · exact hpivot.entry_eq i hi hlt
      · rw [getElem_pivot hrow, if_pos rfl]
        exact fun hb => absurd hcolumn hb.not_gt
    · refine forall_mem_pivot hrow ?_ fun r hr => ?_
      · rw [Row.solvedFor_rhs, hrhs, zero_div]
      · rw [Row.eliminate_rhs, Row.solvedFor_rhs, hrhs, zero_div, mul_zero, sub_zero]
        exact hpos r hr

/-- Artificial columns at level zero leave the basis or their rows come to nothing, and the values
of the columns stay as they are. -/
theorem Settled.driveOut {real : ℕ} {rows : List (Row K)} (h : Settled real 0 rows)
    (hpos : ∀ r ∈ rows, 0 ≤ r.rhs) :
    Settled real (driveOut real 0 rows).length (driveOut real 0 rows) ∧
      (∀ r ∈ LinProg.driveOut real 0 rows, 0 ≤ r.rhs) ∧
      basicSolution (LinProg.driveOut real 0 rows) = basicSolution rows := by
  have hpass (n : ℕ) :
      let after := (List.range n).foldl (LinProg.replaceArtificial real 0) rows
      Settled real n after ∧ (∀ r ∈ after, 0 ≤ r.rhs) ∧
        basicSolution after = basicSolution rows := by
    induction n with
    | zero => exact ⟨h, hpos, rfl⟩
    | succ n ih =>
      obtain ⟨hsettled, hnonneg, hsame⟩ := ih.1.replaceArtificial ih.2.1
      rw [List.range_succ, List.foldl_append]
      exact ⟨hsettled, hnonneg, hsame.trans ih.2.2⟩
  rw [length_driveOut]
  exact hpass rows.length

end LinProg
