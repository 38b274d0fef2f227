import LinProg.Proofs.Arrays.Building
import LinProg.Proofs.Simplex.Soundness

/-!
# Standard form

The grid that is built for a problem is its standard form: a row for each constraint, solved for a
column of its own and with a right-hand side that is not negative, over columns that stand in a
fixed order. The points that satisfy the problem are those that can be completed to non-negative
solutions of the rows without artificial columns, and there is one way to complete them.
-/
namespace LinProg

variable {K : Type} [Field K] [LinearOrder K]

namespace Arrays

/-- The values of the columns of a grid: a point, values of slacks and surpluses, and zeros for the
artificial columns. -/
def Grid.values (g : Grid K) (x aux : List K) : List K :=
  x ++ aux ++ List.replicate (g.columns.length - g.artificialStart) 0

/-- Non-negative values of the slacks and surpluses with which a point satisfies every row of a grid
while the artificial columns are zero. -/
structure Grid.Completes (g : Grid K) (x aux : List K) : Prop where
  length_eq : x.length + aux.length = g.artificialStart
  nonneg : ∀ v ∈ aux, 0 ≤ v
  solves : ∀ entries rhs, entries ++ [rhs] ∈ g.data.tail →
    Scalar.dot entries (g.values x aux) = rhs

/-- The grid has a row for each constraint of the problem, in standard form. -/
structure IsStandardForm (p : Problem K) (g : Grid K) : Prop where
  /-- The rows are those that a run starts from. -/
  tableau : g.columns = p.columns ∧ g.basis = p.initialRows.map Row.basic ∧
    g.data.tail = p.initialRows.map Row.cells
  /-- There is one more row, the first one, for the reduced costs. -/
  length_data : g.data.length = p.constraints.length + 1
  length_row : ∀ row ∈ g.data, row.length = g.columns.length + 1
  mem_columns : ∀ c, c ∈ g.columns ↔ p.AsksFor c
  ordered : g.columns.Pairwise Column.Precedes
  artificialStart_le : g.artificialStart ≤ g.columns.length
  artificial_iff : ∀ j c, g.columns[j]? = some c →
    (c.isArtificial = true ↔ g.artificialStart ≤ j)
  rhs_nonneg : ∀ entries rhs, entries ++ [rhs] ∈ g.data.tail → 0 ≤ rhs
  length_basis : g.basis.length = p.constraints.length
  unit : ∀ (i b : ℕ), g.basis[i]? = some b → ∀ k < p.constraints.length,
    g.entry (k + 1) b = some (if k = i then 1 else 0)
  basic_artificial_iff : ∀ (i b : ℕ), g.basis[i]? = some b →
    ((g.columns[b]?).any Column.isArtificial = true ↔
      ∃ c, p.standardRows[i]? = some c ∧ c.relation ≠ .le)
  satisfied_iff : ∀ x : List K, x.length = p.size → (∀ v ∈ x, 0 ≤ v) →
    ((∀ c ∈ p.constraints, c.relation.Holds (Scalar.dot c.coefficients x) c.rhs) ↔
      ∃ aux, g.Completes x aux)
  unique : ∀ x : List K, x.length = p.size →
    ∀ aux aux', g.Completes x aux → g.Completes x aux' → aux = aux'

variable {p : Problem K} {costs top : List K}

theorem mem_tail_gridOf {rows : List (Row K)} {entries : List K} {rhs : K} :
    entries ++ [rhs] ∈ (gridOf p costs top rows).data.tail ↔
      ∃ r ∈ rows, r.entries = entries ∧ r.rhs = rhs := by
  simp [gridOf, Row.cells]

theorem values_gridOf (rows : List (Row K)) (x aux : List K) :
    (gridOf p costs top rows).values x aux =
      x ++ aux ++ List.replicate p.artificialColumns.length 0 := by
  simp [Grid.values, gridOf, Problem.columns]

/-- Values satisfy the rows of a grid exactly when they solve them as equations. -/
theorem solves_iff_dot {rows : List (Row K)} {n : ℕ} (h : Shaped n rows) (vs : List K) :
    Solves n rows (fun j => vs[j]?.getD 0) ↔ ∀ entries rhs,
      entries ++ [rhs] ∈ (gridOf p costs top rows).data.tail → Scalar.dot entries vs = rhs := by
  have hrow (r : Row K) (hr : r ∈ rows) :
      r.Holds n (fun j => vs[j]?.getD 0) ↔ Scalar.dot r.entries vs = r.rhs := by
    rw [Scalar.dot_exact (h.length_entries r hr).le]
    rfl
  constructor
  · intro hsolves entries rhs hmem
    obtain ⟨r, hr, rfl, rfl⟩ := mem_tail_gridOf.mp hmem
    exact (hrow r hr).mp (hsolves r hr)
  · intro hdot r hr
    exact (hrow r hr).mpr (hdot _ _ (mem_tail_gridOf.mpr ⟨r, hr, rfl, rfl⟩))

section
variable {x aux : List K}

theorem length_values (h : (gridOf p costs top p.initialRows).Completes x aux) :
    ((gridOf p costs top p.initialRows).values x aux).length = p.columns.length := by
  have hlen : x.length + aux.length = p.realColumns.length := h.length_eq
  rw [values_gridOf, List.length_append, List.length_append, List.length_replicate, hlen,
    Problem.columns, List.length_append]

theorem pointOf_values (hx : x.length = p.size) (rows : List (Row K)) (aux : List K) :
    p.pointOf (fun j => ((gridOf p costs top rows).values x aux)[j]?.getD 0) = x := by
  apply List.ext_getElem
  · simp [Problem.pointOf, hx]
  · intro j _ hj
    have hget : (x ++ (aux ++ List.replicate p.artificialColumns.length 0))[j]? = some x[j] := by
      rw [List.getElem?_append_left hj, List.getElem?_eq_getElem hj]
    simp [Problem.pointOf, values_gridOf, hget]

theorem columnValue_values (h : (gridOf p costs top p.initialRows).Completes x aux) {c : Column}
    (hc : c ∈ p.artificialColumns) : p.columnValue
      (fun j => ((gridOf p costs top p.initialRows).values x aux)[j]?.getD 0) c = 0 := by
  have hlen : x.length + aux.length = p.realColumns.length := h.length_eq
  have hplace := Problem.length_realColumns_le_idxOf hc
  rw [Problem.columnValue, values_gridOf, List.getElem?_append_right (by simp; omega),
    List.getElem?_replicate]
  split <;> rfl

/-- The rows leave no choice of the slacks and surpluses. -/
theorem values_eq_map (hp : p.validate = .ok ()) (hx : x.length = p.size)
    (h : (gridOf p costs top p.initialRows).Completes x aux) :
    (gridOf p costs top p.initialRows).values x aux = p.columns.map (p.columnAt x) := by
  have hsolves := (solves_iff_dot (Shaped.initialRows p) _).mpr h.solves
  have hlen := length_values h
  apply List.ext_getElem
  · rw [hlen, List.length_map]
  · intro j hj hj'
    have hcolumn : j < p.columns.length := hlen ▸ hj
    have hvalue := Problem.columnValue_eq_columnAt hp hsolves
      (fun c hc => columnValue_values h hc) (List.getElem_mem hcolumn)
    rw [Problem.columnValue_getElem hcolumn, pointOf_values hx] at hvalue
    simpa [hj] using hvalue

theorem aux_eq (hp : p.validate = .ok ()) (hx : x.length = p.size)
    (h : (gridOf p costs top p.initialRows).Completes x aux) :
    aux = (p.realColumns.drop p.size).map (p.columnAt x) := by
  have hvalues := values_eq_map hp hx h
  rw [values_gridOf, Problem.map_columnAt hx] at hvalues
  exact List.append_cancel_left (List.append_cancel_right hvalues)

variable [IsStrictOrderedRing K]

/-- A point that can be completed satisfies the problem. -/
theorem isFeasible_of_completes (hp : p.validate = .ok ()) (hx : x.length = p.size)
    (hpos : ∀ v ∈ x, 0 ≤ v) (h : (gridOf p costs top p.initialRows).Completes x aux) :
    p.IsFeasible x := by
  have hsolves := (solves_iff_dot (Shaped.initialRows p) _).mpr h.solves
  have hnonneg (j : ℕ) :
      0 ≤ ((gridOf p costs top p.initialRows).values x aux)[j]?.getD 0 := by
    rw [values_gridOf]
    cases hj : (x ++ aux ++ List.replicate p.artificialColumns.length 0)[j]? with
    | none => exact le_rfl
    | some v =>
      rcases List.mem_append.mp (List.mem_of_getElem? hj) with hv | hv
      · exact (List.mem_append.mp hv).elim (hpos v) (h.nonneg v)
      · exact (List.eq_of_mem_replicate hv).ge
  have hfeasible := Problem.isFeasible_pointOf hp hsolves hnonneg
    fun c hc => columnValue_values h hc
  rwa [pointOf_values hx] at hfeasible

/-- A point that satisfies the problem is completed by what the rows leave over. -/
theorem completes_of_isFeasible (hp : p.validate = .ok ()) (hfeasible : p.IsFeasible x) :
    (gridOf p costs top p.initialRows).Completes x
      ((p.realColumns.drop p.size).map (p.columnAt x)) := by
  have hx : x.length = p.size := ((p.isFeasible_iff x).mp hfeasible).1
  constructor
  · have hsize : p.size ≤ p.realColumns.length := by simp [Problem.realColumns]
    simp [hx, hsize]
  · intro v hv
    obtain ⟨c, hc, rfl⟩ := List.mem_map.mp hv
    exact Problem.columnAt_nonneg hfeasible (List.mem_append_left _ (List.mem_of_mem_drop hc))
  · apply (solves_iff_dot (Shaped.initialRows p) _).mp
    have hextend : (fun j => (p.columns.map (p.columnAt x))[j]?.getD 0) = p.extend x := by
      funext j
      rw [Problem.extend, List.getElem?_map]
      cases p.columns[j]? <;> rfl
    rw [values_gridOf, ← Problem.map_columnAt hx, hextend]
    exact Problem.extend_solves hp hfeasible

end

theorem exists_row_of_basis {rows : List (Row K)} {i b : ℕ}
    (h : (gridOf p costs top rows).basis[i]? = some b) :
    ∃ hi : i < rows.length, b = rows[i].basic := by
  rw [gridOf_basis, List.getElem?_map, Option.map_eq_some_iff] at h
  obtain ⟨r, hr, rfl⟩ := h
  obtain ⟨hi, rfl⟩ := List.getElem?_eq_some_iff.mp hr
  exact ⟨hi, rfl⟩

theorem length_of_mem_data (htop : top.length = p.columns.length + 1) {row : List K}
    (hrow : row ∈ (gridOf p costs top p.initialRows).data) : row.length = p.columns.length + 1 := by
  rcases List.mem_cons.mp hrow with rfl | hrow
  · exact htop
  · obtain ⟨r, hr, rfl⟩ := List.mem_map.mp hrow
    simp [Row.cells, (Shaped.initialRows p).length_entries r hr]

/-- The basic columns of the rows are unit columns. -/
theorem entry_basis {i b : ℕ} (h : (gridOf p costs top p.initialRows).basis[i]? = some b) {k : ℕ}
    (hk : k < p.constraints.length) :
    (gridOf p costs top p.initialRows).entry (k + 1) b = some (if k = i then 1 else 0) := by
  obtain ⟨hi, rfl⟩ := exists_row_of_basis h
  have hk' : k < p.initialRows.length := by rwa [Problem.length_initialRows]
  have hlt := p.initialRows_canonical.basic_lt _ (List.getElem_mem hi)
  rw [entry_gridOf hk' fun r hr => getElem?_cells (Shaped.initialRows p) hr hlt,
    p.initialRows_canonical.unit k hk' i hi]

/-- A row is solved for an artificial column exactly if its slack does not solve it. -/
theorem isArtificial_basis_iff {i b : ℕ}
    (h : (gridOf p costs top p.initialRows).basis[i]? = some b) :
    (p.columns[b]?).any Column.isArtificial = true ↔
      ∃ c, p.standardRows[i]? = some c ∧ c.relation ≠ .le := by
  obtain ⟨hi, rfl⟩ := exists_row_of_basis h
  have hi' : i < p.standardRows.length := by simpa using hi
  have hlt := List.idxOf_lt_length_iff.mpr (Problem.basicColumn_mem hi')
  rw [Problem.getElem_initialRows hi, List.getElem?_eq_getElem hlt, List.getElem_idxOf,
    List.getElem?_eq_getElem hi', Option.any_some, Relation.isArtificial_basicColumn]
  simp

variable [IsStrictOrderedRing K]

/-- The points that satisfy the constraints are those that can be completed. -/
theorem satisfied_iff_completes (hp : p.validate = .ok ()) {x : List K} (hx : x.length = p.size)
    (hpos : ∀ v ∈ x, 0 ≤ v) :
    (∀ c ∈ p.constraints, c.relation.Holds (Scalar.dot c.coefficients x) c.rhs) ↔
      ∃ aux, (gridOf p costs top p.initialRows).Completes x aux := by
  have hfeasible := p.isFeasible_iff x
  simp only [hx, true_and, iff_true_intro hpos] at hfeasible
  rw [← hfeasible]
  constructor
  · intro h
    exact ⟨_, completes_of_isFeasible hp h⟩
  · rintro ⟨aux, h⟩
    exact isFeasible_of_completes hp hx hpos h

/-- A problem that passes the check is built, and in standard form. -/
theorem build_standardForm (hp : p.validate = .ok ()) :
    ∃ g, build p = some g ∧ IsStandardForm p g := by
  refine ⟨_, build_eq (Problem.validate_exact.mp hp).2, ?_⟩
  constructor
  case tableau => exact ⟨rfl, rfl, rfl⟩
  case length_data => simp [gridOf]
  case length_row => exact fun row => length_of_mem_data List.length_replicate
  case mem_columns => exact fun c => Problem.mem_columns_iff
  case ordered => exact p.pairwise_columns
  case artificialStart_le => exact p.length_realColumns_le
  case artificial_iff =>
    intro j c hc
    obtain ⟨hj, rfl⟩ := List.getElem?_eq_some_iff.mp hc
    exact Problem.isArtificial_getElem_iff hj
  case rhs_nonneg =>
    intro entries rhs hmem
    obtain ⟨r, hr, _, rfl⟩ := mem_tail_gridOf.mp hmem
    exact p.initialRows_rhs_nonneg r hr
  case length_basis => simp
  case unit => exact fun i b hb k => entry_basis hb
  case basic_artificial_iff => exact fun i b => isArtificial_basis_iff
  case satisfied_iff => exact fun x => satisfied_iff_completes hp
  case unique =>
    intro x hx aux aux' h h'
    exact (aux_eq hp hx h).trans (aux_eq hp hx h').symm

/-- One row of four is turned round, and one is solved for its slack. -/
theorem build_standardForm_mixedRows : Problem.mixedRows.validate = .ok () ∧
    (build Problem.mixedRows).map Grid.basis = some [2, 4, 5, 6] ∧
      ∃ g, build Problem.mixedRows = some g ∧ IsStandardForm Problem.mixedRows g :=
  ⟨by decide, by decide +kernel, build_standardForm (by decide)⟩

end Arrays
end LinProg
