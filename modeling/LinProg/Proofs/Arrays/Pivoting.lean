import LinProg.Proofs.Arrays.Grid
import LinProg.Proofs.Simplex.Shape

/-!
# Pivots by position

On the rows of a tableau no access by position fails, and each operation by position does what the
operation on rows does.
-/
namespace LinProg
variable {K : Type} [Scalar K]

/-- A row with its right-hand side at the end. -/
def Row.cells (r : Row K) : List K := r.entries ++ [r.rhs]

namespace Arrays

/-- The grid of some rows of a problem. -/
def gridOf (p : Problem K) (costs top : List K) (rows : List (Row K)) : Grid K :=
  ⟨top :: rows.map Row.cells, rows.map Row.basic, costs, p.columns, p.size, p.realColumns.length⟩

section
variable {p : Problem K} {rows : List (Row K)} {costs top : List K}

/-- The first row of a grid that shows the prices of some rows. -/
def prices (costs : List K) (rows : List (Row K)) : List K :=
  reducedCosts costs rows ++ [basicValue costs rows]

@[simp] theorem gridOf_basis : (gridOf p costs top rows).basis = rows.map Row.basic := rfl

@[simp] theorem gridOf_costs : (gridOf p costs top rows).costs = costs := rfl

@[simp] theorem gridOf_columns : (gridOf p costs top rows).columns = p.columns := rfl

@[simp] theorem gridOf_size : (gridOf p costs top rows).size = p.size := rfl

@[simp] theorem gridOf_artificialStart :
    (gridOf p costs top rows).artificialStart = p.realColumns.length := rfl

theorem hasArtificial_gridOf :
    (gridOf p costs top rows).hasArtificial = !p.artificialColumns.isEmpty := by
  cases h : p.artificialColumns <;> simp [Grid.hasArtificial, gridOf, Problem.columns, h]

theorem getElem?_data_zero : (gridOf p costs top rows).data[0]? = some top := rfl

theorem getElem?_data_succ {i : ℕ} (hi : i < rows.length) :
    (gridOf p costs top rows).data[i + 1]? = some rows[i].cells := by
  simp [gridOf, hi]

theorem slice_data : slice (gridOf p costs top rows).data 1 (gridOf p costs top rows).data.length =
    some (rows.map Row.cells) := by
  rw [slice_eq (by simp [gridOf]) le_rfl]
  simp [gridOf]

variable {width : ℕ} {r : Row K}

theorem getElem?_cells (h : Shaped width rows) (hr : r ∈ rows) {j : ℕ} (hj : j < width) :
    r.cells[j]? = some (r.entry j) := by
  have hlen := h.length_entries r hr
  rw [Row.cells, List.getElem?_append_left (by omega), h.entry_eq hr hj]

omit [Scalar K] in
theorem getElem?_cells_rhs (h : Shaped width rows) (hr : r ∈ rows) :
    r.cells[width]? = some r.rhs := by
  have hlen := h.length_entries r hr
  rw [Row.cells, List.getElem?_append_right (by omega)]
  simp [hlen]

variable (h : Shaped p.columns.length rows) (hcosts : costs.length = p.columns.length)
include h hcosts

theorem basisCosts_gridOf :
    (gridOf p costs top rows).basisCosts = some (rows.map (Row.basicCost costs)) := by
  rw [Grid.basisCosts, gridOf_basis, gridOf_costs, List.mapM_map]
  apply mapM_eq_map
  intro r hr
  have hlt : r.basic < costs.length := hcosts ▸ h.basic_lt r hr
  simp [Row.basicCost, hlt]

omit h hcosts in
theorem entry_gridOf {value : Row K → K} {i j : ℕ} (hi : i < rows.length)
    (hvalue : ∀ r ∈ rows, r.cells[j]? = some (value r)) :
    (gridOf p costs top rows).entry (i + 1) j = some (value rows[i]) := by
  simp [Grid.entry, getElem?_data_succ hi, hvalue rows[i] (List.getElem_mem hi)]

omit h hcosts in
theorem weighted_gridOf {value : Row K → K} {j : ℕ}
    (hvalue : ∀ r ∈ rows, r.cells[j]? = some (value r)) :
    (gridOf p costs top rows).weighted (rows.map (Row.basicCost costs)) j =
      some (Scalar.sum (rows.map fun r => r.basicCost costs * value r)) := by
  have hproducts (f : K × ℕ → Option K) (hf : ∀ cost i, f (cost, i) =
      ((gridOf p costs top rows).entry (i + 1) j).map (cost * ·)) :
      (rows.map (Row.basicCost costs)).zipIdx.mapM f =
        some (rows.map fun r => r.basicCost costs * value r) := by
    apply mapM_zipIdx (by simp)
    intro i hi _
    have hi' : i < rows.length := by simpa using hi
    simp [hf, entry_gridOf hi' hvalue]
  rw [Grid.weighted, hproducts _ fun _ _ => rfl]
  rfl

omit h in
theorem length_prices (rows : List (Row K)) :
    (prices costs rows).length = p.columns.length + 1 := by
  simp [prices, hcosts]

theorem price_gridOf {j : ℕ} (hj : j < (prices costs rows).length) :
    (gridOf p costs top rows).price (rows.map (Row.basicCost costs)) j =
      some (prices costs rows)[j] := by
  rw [length_prices hcosts] at hj
  rcases Nat.lt_or_ge j p.columns.length with hlt | hge
  · have hj' : j < costs.length := hcosts ▸ hlt
    rw [Grid.price, weighted_gridOf fun r hr => getElem?_cells h hr hlt]
    simp [hlt, hj', prices, reducedCosts]
  · -- the last cell of the row is the value
    obtain rfl : j = p.columns.length := by omega
    rw [Grid.price, weighted_gridOf fun r hr => getElem?_cells_rhs h hr]
    simp [prices, basicValue, hcosts]

theorem refresh_gridOf : (gridOf p costs top rows).refresh =
    some (gridOf p costs (prices costs rows) rows) := by
  have htop : (List.range (p.columns.length + 1)).mapM
      ((gridOf p costs top rows).price (rows.map (Row.basicCost costs))) =
        some (prices costs rows) := by
    rw [← length_prices hcosts rows]
    exact mapM_range fun j hj => price_gridOf h hcosts hj
  rw [Grid.refresh, basisCosts_gridOf h hcosts]
  simp only [gridOf_columns, Option.bind_eq_bind, Option.bind_some, htop]
  rw [store_eq (by simp [gridOf])]
  rfl

omit h in
theorem objectiveValue_gridOf : (gridOf p costs (prices costs rows) rows).objectiveValue =
    some (basicValue costs rows) := by
  simp [Grid.objectiveValue, Grid.entry, getElem?_data_zero, prices, hcosts]

omit h in
theorem entering_gridOf (eligible : ℕ) (tolerance : K) :
    (gridOf p costs (prices costs rows) rows).entering eligible tolerance =
      some (firstLargest tolerance ((reducedCosts costs rows).take eligible)) := by
  have hlen : (reducedCosts costs rows).length = p.columns.length := by simp [hcosts]
  have htake : (prices costs rows).take (min eligible p.columns.length) =
      (reducedCosts costs rows).take eligible := by
    rw [prices, List.take_append_of_le_length (by omega), ← hlen, ← List.take_take,
      List.take_length]
  have hle : min eligible p.columns.length ≤ (prices costs rows).length := by
    have hprices := length_prices hcosts rows
    omega
  rw [Grid.entering, gridOf_columns]
  simp only [Grid.entry, getElem?_data_zero, Option.bind_eq_bind, Option.bind_some]
  rw [foldlM_range hle, htake]
  rfl

omit hcosts in
theorem ratios_gridOf {column : ℕ} (hcolumn : column < p.columns.length) (tolerance : K) :
    (gridOf p costs top rows).ratios column tolerance =
      some (rows.map (Row.ratio? tolerance column)) := by
  rw [Grid.ratios, slice_data, gridOf_columns]
  simp only [Option.bind_eq_bind, Option.bind_some, List.mapM_map]
  apply mapM_eq_map
  intro r hr
  simp only [Function.comp_apply, Grid.ratioOf, getElem?_cells h hr hcolumn,
    getElem?_cells_rhs h hr, Option.bind_eq_bind, Option.bind_some, Option.map_some, Row.ratio?]
  split <;> rfl

end

theorem cells_solvedFor (r : Row K) (column : ℕ) :
    (r.solvedFor column).cells = r.cells.map (· / r.entry column) := by
  simp [Row.cells, Row.solvedFor]

theorem cells_eliminate {r solved : Row K} (h : r.entries.length = solved.entries.length)
    (column : ℕ) : (r.eliminate solved column).cells =
      if r.entry column == 0 then r.cells
      else List.zipWith (fun v p => v - r.entry column * p) r.cells solved.cells := by
  simp only [Row.eliminate]
  split
  · rfl
  · simp [Row.cells, List.zipWith_append h]

section
variable {p : Problem K} {rows : List (Row K)} {costs top : List K}

variable (h : Shaped p.columns.length rows)
include h

/-- The row of prices stays, and so does the row that is solved for the column. -/
theorem mapM_eliminate {row column : ℕ} (hrow : row < rows.length)
    (hcolumn : column < p.columns.length) :
    ((top :: rows.map Row.cells).set (row + 1) (rows[row].solvedFor column).cells).zipIdx.mapM
        (Grid.eliminate row column (rows[row].solvedFor column).cells) =
      some (top :: (pivot rows row column).map Row.cells) := by
  apply mapM_zipIdx (by simp)
  intro i hi _
  cases i with
  | zero => simp [Grid.eliminate]
  | succ i =>
    have hlt : i < rows.length := by simpa using hi
    have hlen := h.length_entries rows[i] (List.getElem_mem hlt)
    have hsolved := h.length_entries rows[row] (List.getElem_mem hrow)
    simp only [List.set_cons_succ, List.getElem_cons_succ, List.getElem_map, List.getElem_set,
      Grid.eliminate, pivot_eq hrow, List.getElem_mapIdx, Nat.zero_add, Nat.add_eq_zero_iff,
      one_ne_zero, and_false, false_or, Nat.add_right_cancel_iff, eq_comm (a := row)]
    split
    · rfl
    · rw [getElem?_cells h (List.getElem_mem hlt) hcolumn,
        cells_eliminate (by simp [hlen, hsolved])]
      rfl

theorem pivot_gridOf {row column : ℕ} (hrow : row < rows.length)
    (hcolumn : column < p.columns.length) : (gridOf p costs top rows).pivot row column =
      some (gridOf p costs top (pivot rows row column)) := by
  have hleaving : rows[row] ∈ rows := List.getElem_mem hrow
  rw [Grid.pivot, gridOf_basis, store_eq (by simpa using hrow), getElem?_data_succ hrow]
  simp only [Option.bind_eq_bind, Option.bind_some, getElem?_cells h hleaving hcolumn]
  rw [← cells_solvedFor, store_eq (by simpa [gridOf] using hrow)]
  simp only [Option.bind_some, gridOf, mapM_eliminate h hrow hcolumn]
  rw [← map_basic_pivot hrow]
  rfl

/-- The columns whose names are logged exist. -/
theorem loggedPivot_gridOf {row column : ℕ} (hrow : row < rows.length)
    (hcolumn : column < p.columns.length) : (gridOf p costs top rows).loggedPivot row column =
      some (gridOf p costs top (pivot rows row column)) := by
  have hbasic : rows[row].basic < p.columns.length := h.basic_lt _ (List.getElem_mem hrow)
  simp only [Grid.loggedPivot, gridOf_columns, gridOf_basis, Option.bind_eq_bind,
    List.getElem?_eq_getElem hcolumn, List.getElem?_map, List.getElem?_eq_getElem hrow,
    List.getElem?_eq_getElem hbasic, Option.map_some, Option.bind_some, pivot_gridOf h hrow hcolumn]

theorem counts_gridOf {row column : ℕ} (hrow : row < rows.length)
    (hcolumn : column < p.columns.length) (tolerance : K) :
    (gridOf p costs top rows).counts tolerance row column =
      some (decide (tolerance < Scalar.abs (rows[row].entry column))) := by
  rw [Grid.counts, entry_gridOf hrow fun r hr => getElem?_cells h hr hcolumn]
  rfl

theorem replaceArtificial_gridOf {row : ℕ} (hrow : row < rows.length) (tolerance : K) :
    Grid.replaceArtificial tolerance (gridOf p costs top rows) row =
      some (gridOf p costs top
        (replaceArtificial p.realColumns.length tolerance rows row)) := by
  have hreal := p.length_realColumns_le
  have hlen := h.length_entries rows[row] (List.getElem_mem hrow)
  have htake : (rows[row].entries.take p.realColumns.length).length = p.realColumns.length := by
    rw [List.length_take, hlen, Nat.min_eq_left hreal]
  have hsearch : (List.range p.realColumns.length).findM?
      ((gridOf p costs top rows).counts tolerance row) =
        some ((rows[row].entries.take p.realColumns.length).findIdx?
          fun v => tolerance < Scalar.abs v) := by
    conv_lhs => rw [← htake]
    apply findM?_range
    intro column hcolumn
    rw [htake] at hcolumn
    rw [counts_gridOf h hrow (by omega)]
    simp [Row.entry, List.getElem?_eq_getElem (show column < rows[row].entries.length by omega)]
  rw [Grid.replaceArtificial, LinProg.replaceArtificial]
  simp only [gridOf_basis, gridOf_artificialStart, List.getElem?_map,
    List.getElem?_eq_getElem hrow, Option.map_some, Option.bind_eq_bind, Option.bind_some]
  by_cases hbasic : rows[row].basic < p.realColumns.length
  · simp [hbasic]
  · simp only [if_neg hbasic, hsearch, Option.bind_some]
    cases hfound : (rows[row].entries.take p.realColumns.length).findIdx?
        fun v => tolerance < Scalar.abs v with
    | none => rfl
    | some column =>
      obtain ⟨hcolumn, _⟩ := List.findIdx?_eq_some_iff_getElem.mp hfound
      exact loggedPivot_gridOf h hrow (by omega)

theorem driveOut_gridOf (tolerance : K) : (gridOf p costs top rows).driveOut tolerance =
    some (gridOf p costs top (driveOut p.realColumns.length tolerance rows)) := by
  rw [Grid.driveOut, gridOf_basis, List.length_map]
  refine (foldlM_eq_foldl (P := fun now : List (Row K) =>
    Shaped p.columns.length now ∧ now.length = rows.length) (gridOf p costs top) ?_ ⟨h, rfl⟩).1
  rintro now ⟨hnow, hlen⟩ row hrow
  have hlt : row < now.length := hlen ▸ List.mem_range.mp hrow
  have hshaped := hnow.replaceArtificial p.length_realColumns_le tolerance row
  have hlen' := length_replaceArtificial p.realColumns.length tolerance now row
  exact ⟨replaceArtificial_gridOf hnow hlt tolerance, hshaped, hlen'.trans hlen⟩

theorem setCoordinate_gridOf {values : List K} (hvalues : values.length = p.size) {r : Row K}
    {i : ℕ} (hr : rows[i]? = some r) :
    (gridOf p costs top rows).setCoordinate values (r.basic, i) =
      some (values.set r.basic r.rhs) := by
  obtain ⟨hi, rfl⟩ := List.getElem?_eq_some_iff.mp hr
  rw [Grid.setCoordinate, gridOf_size]
  split
  · rename_i hlt
    rw [gridOf_columns, entry_gridOf hi fun r hr => getElem?_cells_rhs h hr, Option.bind_some,
      store_eq (hvalues ▸ hlt)]
  · rename_i hge
    -- a basic column that is no variable sets nothing
    rw [List.set_eq_of_length_le (by omega)]

theorem coordinates_gridOf : (gridOf p costs top rows).coordinates =
    some (basicPoint p.size rows) := by
  have hpoint : basicPoint p.size rows = rows.zipIdx.foldl
      (fun values x => values.set x.1.basic x.1.rhs) (List.replicate p.size 0) := by
    conv_lhs => rw [basicPoint, ← List.zipIdx_map_fst 0 rows, List.foldl_map]
  rw [Grid.coordinates, gridOf_basis, List.zipIdx_map, List.foldlM_map, hpoint]
  refine (foldlM_eq_foldl (P := fun values : List K => values.length = p.size) id ?_
    List.length_replicate).1
  intro values hvalues x hx
  have hset : (gridOf p costs top rows).setCoordinate values (x.1.basic, x.2) =
      some (values.set x.1.basic x.1.rhs) :=
    setCoordinate_gridOf h hvalues (List.mk_mem_zipIdx_iff_getElem?.mp hx)
  exact ⟨hset, List.length_set.trans hvalues⟩

end

end Arrays
end LinProg
