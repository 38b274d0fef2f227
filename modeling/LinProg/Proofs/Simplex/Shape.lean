import LinProg.Proofs.Simplex.Layout
import LinProg.Simplex.Run

/-!
# The shape of a tableau

Every row of a tableau has an entry for each column and is solved for one of the columns, whatever
the numbers are. The positions that are chosen on the way are those of columns and rows. Nothing is
assumed of the numbers, so that this holds where sums round and comparisons fail.
-/
namespace LinProg
variable {K : Type} [Scalar K]

omit [Scalar K] in
theorem foldl_zipIdx_lt {A : Type} {step : Option (ℕ × K) → A × ℕ → Option (ℕ × K)}
    (hstep : ∀ best a i, step best (a, i) = best ∨ ∃ x, step best (a, i) = some (i, x))
    {xs : List A} {i : ℕ} {v : K} (h : xs.zipIdx.foldl step none = some (i, v)) :
    i < xs.length := by
  induction xs using List.reverseRecOn generalizing i v with
  | nil => cases h
  | append_singleton xs x ih =>
    rw [List.zipIdx_append, List.foldl_append] at h
    simp only [List.zipIdx_singleton, List.foldl_cons, List.foldl_nil, Nat.zero_add] at h
    rw [List.length_append, List.length_singleton]
    rcases hstep (xs.zipIdx.foldl step none) x xs.length with heq | ⟨y, heq⟩
    · rw [heq] at h
      exact Nat.lt_succ_of_lt (ih h)
    · rw [heq] at h
      cases h
      exact Nat.lt_succ_self _

theorem largestStep_cases (bound : K) (best : Option (ℕ × K)) (x : K) (i : ℕ) :
    largestStep bound best (x, i) = best ∨ ∃ y, largestStep bound best (x, i) = some (i, y) := by
  simp only [largestStep]
  split
  · exact .inr ⟨x, rfl⟩
  · exact .inl rfl

theorem leastStep_cases (best : Option (ℕ × K)) (x : Option K) (i : ℕ) :
    leastStep best (x, i) = best ∨ ∃ y, leastStep best (x, i) = some (i, y) := by
  cases x with
  | none => exact .inl rfl
  | some x =>
    cases best with
    | none =>
      simp only [leastStep]
      split
      · exact .inr ⟨x, rfl⟩
      · exact .inl rfl
    | some best =>
      simp only [leastStep]
      split
      · exact .inr ⟨x, rfl⟩
      · exact .inl rfl

theorem firstLargest_lt {bound : K} {xs : List K} {i : ℕ} (h : firstLargest bound xs = some i) :
    i < xs.length := by
  obtain ⟨⟨j, v⟩, hbest, rfl⟩ := Option.map_eq_some_iff.mp h
  exact foldl_zipIdx_lt (largestStep_cases bound) hbest

theorem firstLeast_lt {xs : List (Option K)} {i : ℕ} (h : firstLeast xs = some i) :
    i < xs.length := by
  obtain ⟨⟨j, v⟩, hbest, rfl⟩ := Option.map_eq_some_iff.mp h
  exact foldl_zipIdx_lt leastStep_cases hbest

namespace Stage
variable {s : Stage K} {rows : List (Row K)} {column row : ℕ}

theorem entering?_lt (h : s.entering? rows = some column) :
    column < s.eligible ∧ column < s.costs.length := by
  have hlt := firstLargest_lt h
  rw [List.length_take, length_reducedCosts] at hlt
  omega

theorem leaving_lt (h : (s.choose rows column).leaving = some row) : row < rows.length := by
  have hlt := firstLeast_lt h
  rwa [List.length_map] at hlt

end Stage

namespace Row

@[simp] theorem solvedFor_basic (r : Row K) (c : ℕ) : (r.solvedFor c).basic = c := rfl

@[simp] theorem length_solvedFor (r : Row K) (c : ℕ) :
    (r.solvedFor c).entries.length = r.entries.length := by simp [solvedFor]

@[simp] theorem eliminate_basic (r s : Row K) (c : ℕ) : (r.eliminate s c).basic = r.basic := by
  simp only [eliminate]
  split <;> rfl

theorem length_eliminate {r s : Row K} (h : r.entries.length = s.entries.length) (c : ℕ) :
    (r.eliminate s c).entries.length = r.entries.length := by
  simp only [eliminate]
  split
  · rfl
  · simp [h]

end Row

theorem pivot_eq {rows : List (Row K)} {row : ℕ} (hrow : row < rows.length) (column : ℕ) :
    pivot rows row column = rows.mapIdx fun i r =>
      if i = row then rows[row].solvedFor column
      else r.eliminate (rows[row].solvedFor column) column := by
  simp [pivot, hrow]

theorem map_basic_pivot {rows : List (Row K)} {row : ℕ} (hrow : row < rows.length) (column : ℕ) :
    (pivot rows row column).map Row.basic = (rows.map Row.basic).set row column := by
  apply List.ext_getElem (by simp)
  intro i _ _
  rw [List.getElem_set, List.getElem_map, List.getElem_map]
  simp only [pivot_eq hrow, List.getElem_mapIdx, eq_comm (a := row)]
  split <;> simp

/-- What one step between the phases does: nothing if no real column has an entry that counts in
the row of an artificial one, else a pivot on such an entry. -/
theorem replaceArtificial_cases (real : ℕ) (t : K) (rows : List (Row K)) (row : ℕ) :
    (replaceArtificial real t rows row = rows ∧
      ∀ hrow : row < rows.length, real ≤ rows[row].basic →
        ∀ v ∈ rows[row].entries.take real, ¬ t < Scalar.abs v) ∨
    ∃ (column : ℕ) (hrow : row < rows.length), real ≤ rows[row].basic ∧ column < real ∧
      t < Scalar.abs (rows[row].entry column) ∧
      replaceArtificial real t rows row = pivot rows row column := by
  rcases Nat.lt_or_ge row rows.length with hrow | hrow
  swap
  · left
    refine ⟨?_, fun h => absurd hrow (Nat.not_le.mpr h)⟩
    rw [replaceArtificial, List.getElem?_eq_none hrow]
  by_cases hreal : rows[row].basic < real
  · refine .inl ⟨?_, fun _ hb => absurd hreal (Nat.not_lt.mpr hb)⟩
    rw [replaceArtificial, List.getElem?_eq_getElem hrow]
    exact if_pos hreal
  have hstep : replaceArtificial real t rows row =
      ((rows[row].entries.take real).findIdx? fun v => decide (t < Scalar.abs v)).elim rows
        (pivot rows row) := by
    rw [replaceArtificial, List.getElem?_eq_getElem hrow]
    refine (if_neg hreal).trans ?_
    cases (rows[row].entries.take real).findIdx? fun v => decide (t < Scalar.abs v) <;> rfl
  rw [hstep]
  cases hfind : (rows[row].entries.take real).findIdx? fun v => decide (t < Scalar.abs v) with
  | none =>
    refine .inl ⟨rfl, fun _ _ v hv => ?_⟩
    simpa using List.findIdx?_eq_none_iff.mp hfind v hv
  | some column =>
    obtain ⟨hlen, hlt, _⟩ := List.findIdx?_eq_some_iff_getElem.mp hfind
    rw [List.length_take, lt_min_iff] at hlen
    refine .inr ⟨column, hrow, Nat.not_lt.mp hreal, hlen.1, ?_, rfl⟩
    simpa [Row.entry, hlen.2] using hlt

/-- A property that every pivot between the phases keeps holds whatever rows have been passed. -/
theorem replaceArtificial_induction {P : List (Row K) → Prop} {real : ℕ} {t : K}
    (hstep : ∀ rows row column, P rows → ∀ hrow : row < rows.length, real ≤ rows[row].basic →
      column < real → t < Scalar.abs (rows[row].entry column) → P (pivot rows row column))
    {rows : List (Row K)} (h : P rows) (passed : List ℕ) :
    P (passed.foldl (replaceArtificial real t) rows) := by
  induction passed generalizing rows with
  | nil => exact h
  | cons row passed ih =>
    apply ih
    obtain ⟨heq, _⟩ | ⟨column, hrow, hb, hcolumn, hentry, heq⟩ :=
      replaceArtificial_cases real t rows row
    · rwa [heq]
    · rw [heq]
      exact hstep rows row column h hrow hb hcolumn hentry

/-- Such a property holds after the pivots between the phases. -/
theorem driveOut_induction {P : List (Row K) → Prop} {real : ℕ} {t : K}
    (hstep : ∀ rows row column, P rows → ∀ hrow : row < rows.length, real ≤ rows[row].basic →
      column < real → t < Scalar.abs (rows[row].entry column) → P (pivot rows row column))
    {rows : List (Row K)} (h : P rows) : P (driveOut real t rows) :=
  replaceArtificial_induction hstep h _

theorem length_replaceArtificial (real : ℕ) (t : K) (rows : List (Row K)) (row : ℕ) :
    (replaceArtificial real t rows row).length = rows.length := by
  obtain ⟨heq, _⟩ | ⟨column, _, _, _, _, heq⟩ := replaceArtificial_cases real t rows row <;>
    simp [heq]

theorem length_driveOut (real : ℕ) (t : K) (rows : List (Row K)) :
    (driveOut real t rows).length = rows.length :=
  driveOut_induction (P := fun later => later.length = rows.length)
    (fun later row column hlen _ _ _ _ => (length_pivot later row column).trans hlen) rfl

/-- Every row has an entry for each of the columns and is solved for one of them. -/
structure Shaped (width : ℕ) (rows : List (Row K)) : Prop where
  length_entries : ∀ r ∈ rows, r.entries.length = width
  basic_lt : ∀ r ∈ rows, r.basic < width

namespace Shaped
variable {width : ℕ} {rows : List (Row K)}

theorem entry_eq (h : Shaped width rows) {r : Row K} (hr : r ∈ rows) {j : ℕ} (hj : j < width) :
    r.entries[j]? = some (r.entry j) := by
  have hlen := h.length_entries r hr
  simp [Row.entry, hlen, hj]

theorem pivot (h : Shaped width rows) (row : ℕ) {column : ℕ} (hcolumn : column < width) :
    Shaped width (pivot rows row column) := by
  unfold LinProg.pivot
  split
  · exact h
  · rename_i leaving hleaving
    have hsolved : (leaving.solvedFor column).entries.length = width := by
      rw [Row.length_solvedFor, h.length_entries leaving (List.mem_of_getElem? hleaving)]
    constructor
    · intro r hr
      obtain ⟨i, hi, rfl⟩ := List.mem_mapIdx.mp hr
      have hlen := h.length_entries rows[i] (List.getElem_mem hi)
      split
      · exact hsolved
      · rw [Row.length_eliminate (hlen.trans hsolved.symm), hlen]
    · intro r hr
      obtain ⟨i, hi, rfl⟩ := List.mem_mapIdx.mp hr
      split
      · exact hcolumn
      · rw [Row.eliminate_basic]
        exact h.basic_lt rows[i] (List.getElem_mem hi)

theorem replaceArtificial (h : Shaped width rows) {real : ℕ} (hreal : real ≤ width) (t : K)
    (row : ℕ) : Shaped width (replaceArtificial real t rows row) := by
  obtain ⟨heq, _⟩ | ⟨column, _, _, hcolumn, _, heq⟩ := replaceArtificial_cases real t rows row
  · rwa [heq]
  · rw [heq]
    exact h.pivot row (hcolumn.trans_le hreal)

theorem driveOut (h : Shaped width rows) {real : ℕ} (hreal : real ≤ width) (t : K) :
    Shaped width (driveOut real t rows) :=
  driveOut_induction
    (fun _ row _ h _ _ hcolumn _ => h.pivot row (hcolumn.trans_le hreal)) h

theorem run {s : Stage K} (hcosts : s.costs.length = width) (h : Shaped width rows)
    (left made : ℕ) : Shaped width (s.run left made rows).rows := by
  subst hcosts
  fun_induction s.run left made rows with
  | case1 => exact h
  | case2 => exact h
  | case3 => exact h
  | case4 made rows column hcolumn left choice visited row hrow rest ih =>
    have hlt := Stage.entering?_lt hcolumn
    exact ih (h.pivot row hlt.2)

theorem initialRows (p : Problem K) : Shaped p.columns.length p.initialRows := by
  constructor
  · intro r hr
    obtain ⟨i, hi, rfl⟩ := List.getElem_of_mem hr
    simp [Problem.getElem_initialRows hi]
  · intro r hr
    obtain ⟨i, hi, rfl⟩ := List.getElem_of_mem hr
    rw [Problem.getElem_initialRows hi]
    exact List.idxOf_lt_length_iff.mpr (Problem.basicColumn_mem (by simpa using hi))

end Shaped

end LinProg
