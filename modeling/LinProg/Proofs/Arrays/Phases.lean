import LinProg.Proofs.Arrays.Pivoting

/-!
# Phases by position

A phase by position comes to the same end as the phase on rows, after as many pivots, and it keeps
a record of each tableau that the phase visits.
-/
namespace LinProg
variable {K : Type} [Scalar K]

/-- A snapshot whose parts fit together. -/
structure Snapshot.Fits (s : Snapshot K) (width : ℕ) : Prop where
  shaped : Shaped width s.rows
  length_costs : s.costs.length = width
  length_reduced : s.reduced.length = width
  entering_lt : ∀ c ∈ s.choice, c.entering < width
  leaving_lt : ∀ c ∈ s.choice, ∀ row ∈ c.leaving, row < s.rows.length
  length_ratios : ∀ c ∈ s.choice, c.ratios.length = s.rows.length

theorem Stage.fits_snapshot {s : Stage K} {rows : List (Row K)} (h : Shaped s.costs.length rows)
    (made : ℕ) {choice : Option (Choice K)}
    (hchoice : ∀ c ∈ choice, ∃ column, s.entering? rows = some column ∧ s.choose rows column = c) :
    (s.snapshot made rows choice).Fits s.costs.length := by
  constructor
  · exact h
  · rfl
  · exact length_reducedCosts _ _
  · intro c hc
    obtain ⟨column, hcolumn, rfl⟩ := hchoice c hc
    exact (Stage.entering?_lt hcolumn).2
  · intro c hc row hrow
    obtain ⟨column, hcolumn, rfl⟩ := hchoice c hc
    exact Stage.leaving_lt hrow
  · intro c hc
    obtain ⟨column, hcolumn, rfl⟩ := hchoice c hc
    exact List.length_map _

/-- Every tableau that a phase records can be listed. -/
theorem Stage.fits_of_mem_run {s : Stage K} {width : ℕ} (hcosts : s.costs.length = width)
    {rows : List (Row K)} (h : Shaped width rows) (left made : ℕ) :
    ∀ t ∈ (s.run left made rows).trace, t.Fits width := by
  subst hcosts
  fun_induction s.run left made rows with
  | case1 left made rows hnone =>
    intro t ht
    rw [List.mem_singleton.mp ht]
    exact s.fits_snapshot h made (by simp)
  | case2 => simp
  | case3 made rows column hcolumn left choice visited hleaving =>
    intro t ht
    rw [List.mem_singleton.mp ht]
    exact s.fits_snapshot h made (by simpa using ⟨column, hcolumn, rfl⟩)
  | case4 made rows column hcolumn left choice visited row hrow rest ih =>
    intro t ht
    rcases List.mem_cons.mp ht with rfl | ht
    · exact s.fits_snapshot h made (by simpa using ⟨column, hcolumn, rfl⟩)
    · exact ih (h.pivot row (Stage.entering?_lt hcolumn).2) t ht

namespace Arrays

/-- A choice with the entry where its row and its column meet. -/
def pickOf (rows : List (Row K)) (c : Choice K) : Pick K :=
  ⟨c.entering, c.leaving, c.leaving.bind fun row => (rows[row]?).map (Row.entry · c.entering),
    c.ratios⟩

/-- What is kept of the tableau of a snapshot. -/
def recordOf (s : Snapshot K) : Record K :=
  ⟨s.phase, s.iteration, s.rows.map Row.cells, s.rows.map Row.basic,
    s.rows.map (Row.basicCost s.costs), s.costs, s.reduced, s.value, s.choice.map (pickOf s.rows)⟩

/-- The grid that a phase leaves behind. -/
def passageOf (p : Problem K) (s : Stage K) (leg : Leg K) : Passage K :=
  ⟨leg.trace.map recordOf, gridOf p s.costs (prices s.costs leg.rows) leg.rows, leg.pivots,
    leg.ending⟩

variable {p : Problem K} {s : Stage K} {rows : List (Row K)}
  (hcosts : s.costs.length = p.columns.length) (h : Shaped p.columns.length rows)
include hcosts h

theorem record_gridOf (made : ℕ) (choice : Option (Choice K)) :
    (gridOf p s.costs (prices s.costs rows) rows).record s.phase made (choice.map (pickOf rows)) =
      some (recordOf (s.snapshot made rows choice)) := by
  have hreduced : slice (prices s.costs rows) 0 p.columns.length =
      some (reducedCosts s.costs rows) := by
    have hlen : (reducedCosts s.costs rows).length = p.columns.length := by simp [hcosts]
    have hprices := length_prices hcosts rows
    rw [slice_eq (Nat.zero_le _) (by omega), List.drop_zero, prices, ← hlen, List.take_left]
  simp only [Grid.record, slice_data, basisCosts_gridOf h hcosts, getElem?_data_zero,
    gridOf_columns, hreduced, objectiveValue_gridOf hcosts, Option.bind_eq_bind, Option.bind_some]
  rfl

theorem pickAt_gridOf {column : ℕ} (hcolumn : s.entering? rows = some column) :
    (gridOf p s.costs (prices s.costs rows) rows).pickAt column s.tolerance =
      some (pickOf rows (s.choose rows column)) := by
  have hlt : column < p.columns.length := hcosts ▸ (Stage.entering?_lt hcolumn).2
  simp only [Grid.pickAt, ratios_gridOf h hlt, Option.bind_eq_bind, Option.bind_some]
  cases hleaving : firstLeast (rows.map (Row.ratio? s.tolerance column)) with
  | none => simp [pickOf, Stage.choose, hleaving]
  | some row =>
    have hrow : row < rows.length := Stage.leaving_lt (s := s) hleaving
    have hentry : (gridOf p s.costs (prices s.costs rows) rows).entry (row + 1) column =
        some (rows[row].entry column) := entry_gridOf hrow fun r hr => getElem?_cells h hr hlt
    simp [pickOf, Stage.choose, hleaving, hentry, hrow]

omit h in
/-- A phase by position never fails. -/
theorem iterate_gridOf (left made : ℕ) {rows : List (Row K)} (h : Shaped p.columns.length rows)
    (top : List K) :
    (gridOf p s.costs top rows).iterate s.phase s.eligible s.tolerance left made =
      some (passageOf p s (s.run left made rows)) := by
  have hentering (rows : List (Row K)) :
      (gridOf p s.costs (prices s.costs rows) rows).entering s.eligible s.tolerance =
        some (s.entering? rows) := entering_gridOf hcosts s.eligible s.tolerance
  fun_induction s.run left made rows generalizing top with
  | case1 left made rows hnone =>
    have hrecord := record_gridOf hcosts h made none
    rw [Option.map_none] at hrecord
    unfold Grid.iterate
    simp only [refresh_gridOf h hcosts, hentering, hnone, hrecord, Option.bind_eq_bind,
      Option.bind_some]
    rfl
  | case2 made rows column hcolumn =>
    unfold Grid.iterate
    simp only [refresh_gridOf h hcosts, hentering, hcolumn, Option.bind_eq_bind, Option.bind_some]
    rfl
  | case3 made rows column hcolumn left choice visited hleaving =>
    have hrecord := record_gridOf hcosts h made (some (s.choose rows column))
    rw [Option.map_some] at hrecord
    have hpick : (pickOf rows (s.choose rows column)).leaving = none := hleaving
    unfold Grid.iterate
    simp only [refresh_gridOf h hcosts, hentering, hcolumn, pickAt_gridOf hcosts h hcolumn, hrecord,
      Option.bind_eq_bind, Option.bind_some]
    rw [hpick]
    rfl
  | case4 made rows column hcolumn left choice visited row hrow rest ih =>
    have hlt := Stage.entering?_lt hcolumn
    have hnext : Shaped p.columns.length (pivot rows row column) := h.pivot row (hcosts ▸ hlt.2)
    have hrecord := record_gridOf hcosts h made (some (s.choose rows column))
    rw [Option.map_some] at hrecord
    have hpick : (pickOf rows (s.choose rows column)).leaving = some row := hrow
    unfold Grid.iterate
    simp only [refresh_gridOf h hcosts, hentering, hcolumn, pickAt_gridOf hcosts h hcolumn, hrecord,
      Option.bind_eq_bind, Option.bind_some]
    rw [hpick]
    simp only [loggedPivot_gridOf h (Stage.leaving_lt hrow) (hcosts ▸ hlt.2), ih hnext,
      Option.bind_some]
    rfl

end Arrays
end LinProg
