import LinProg.Proofs.Simplex.Canonical
import LinProg.Proofs.Simplex.Layout

/-!
# The first tableau

The equations of the first tableau say of the values of the columns what the constraints say of
the point that the first of them form. What a constraint leaves over or lacks at the point is the
value of the auxiliary columns of its row.
-/
namespace LinProg
open Finset
variable {K : Type} [Field K] [LinearOrder K]

/-- What the auxiliary columns of a row add to its left-hand side. -/
def Relation.imbalance (r : Relation) (row : ℕ) (value : Column → K) : K :=
  match r with
  | le => value (.slack row)
  | ge => value (.artificial row) - value (.surplus row)
  | eq => value (.artificial row)

namespace Problem

/-- The value of a column, read at its position. -/
def columnValue (p : Problem K) (y : ℕ → K) (c : Column) : K := y (p.columns.idxOf c)

/-- The values of the variables of a problem. -/
def pointOf (p : Problem K) (y : ℕ → K) : List K := (List.range p.size).map y

variable {p : Problem K}

theorem entry_initialRows {i : ℕ} (hi : i < p.initialRows.length) {j : ℕ}
    (hj : j < p.columns.length) : p.initialRows[i].entry j =
      Column.entry (getElem p.standardRows i (by simpa using hi)) i p.columns[j] := by
  simp [getElem_initialRows hi, Row.entry, hj]

theorem entry_basicColumn (c : Constraint K) (r : Relation) (i k : ℕ) :
    Column.entry c i (r.basicColumn k) = if i = k then 1 else 0 := by
  cases r <;> simp [Relation.basicColumn, Column.entry, eq_comm]

/-- The first tableau is solved for slacks and artificial columns. -/
theorem initialRows_canonical (p : Problem K) : Canonical p.columns.length p.initialRows := by
  have hbasic (i : ℕ) (hi : i < p.standardRows.length) :
      p.columns.idxOf (p.standardRows[i].relation.basicColumn i) < p.columns.length :=
    List.idxOf_lt_length_iff.mpr (basicColumn_mem hi)
  refine ⟨?_, ?_, ?_⟩
  · intro r hr
    obtain ⟨i, hi, rfl⟩ := List.getElem_of_mem hr
    simp [getElem_initialRows hi]
  · intro r hr
    obtain ⟨i, hi, rfl⟩ := List.getElem_of_mem hr
    rw [getElem_initialRows hi]
    exact hbasic i (by simpa using hi)
  · intro i hi k hk
    have hk' : k < p.standardRows.length := by simpa using hk
    rw [getElem_initialRows hk, entry_initialRows hi (hbasic k hk'), List.getElem_idxOf,
      entry_basicColumn]

theorem columnValue_getElem {j : ℕ} (hj : j < p.columns.length) (y : ℕ → K) :
    p.columnValue y p.columns[j] = y j := by
  rw [columnValue, p.nodup_columns.idxOf_getElem j hj]

/-- A sum over positions is a sum over columns. -/
theorem sum_range_width (f : Column → K) (y : ℕ → K) :
    ∑ j ∈ range p.columns.length, (p.columns[j]?.elim 0 f) * y j =
      (p.columns.map fun c => f c * p.columnValue y c).sum := by
  rw [← Fin.sum_univ_fun_getElem, ← Fin.sum_univ_eq_sum_range
    fun j => (p.columns[j]?.elim 0 f) * y j]
  refine sum_congr rfl fun j _ => ?_
  rw [columnValue_getElem (p := p) j.isLt, List.getElem?_eq_getElem (h := j.isLt)]
  rfl

omit [Field K] [LinearOrder K] in
theorem getElem?_pointOf {j : ℕ} (hj : j < p.size) (y : ℕ → K) :
    (p.pointOf y)[j]? = some (y j) := by
  simp [pointOf, hj]

theorem sum_decisions {xs : List K} (hlen : xs.length = p.size) {f : Column → K}
    (hf : ∀ j, f (.decision j) = xs[j]?.getD 0) (y : ℕ → K) :
    (((List.range p.size).map Column.decision).map fun c => f c * p.columnValue y c).sum =
      Scalar.dot xs (p.pointOf y) := by
  rw [Scalar.dot_exact hlen.le, List.map_map, ← List.sum_toFinset _ List.nodup_range,
    show (List.range p.size).toFinset = range p.size by ext; simp]
  refine sum_congr rfl fun j hj => ?_
  have hj' := mem_range.mp hj
  rw [Function.comp_apply, hf, columnValue, idxOf_decision hj', getElem?_pointOf hj']
  rfl

/-- Of all rows only its own one gives an auxiliary column an entry. -/
theorem sum_auxiliary {i : ℕ} (hi : i < p.standardRows.length)
    (column? : ℕ → Relation → Option Column) (f : Column → K)
    (hf : ∀ k r c, column? k r = some c → k ≠ i → f c = 0) :
    (((p.standardRows.mapIdx fun k c => column? k c.relation).filterMap id).map f).sum =
      (column? i p.standardRows[i].relation).elim 0 f := by
  rw [sum_filterMap_mapIdx, sum_eq_single (⟨i, hi⟩ : Fin p.standardRows.length)]
  · rfl
  · intro k _ hne
    have hki : (k : ℕ) ≠ i := fun hki => hne (Fin.ext hki)
    cases hc : column? k p.standardRows[k].relation with
    | none => rfl
    | some c => exact hf k _ c hc hki
  · simp

/-- The left-hand side of a row of the first tableau, in terms of the constraint. -/
theorem initialRows_lhs {i : ℕ} (hi : i < p.standardRows.length)
    (hlen : p.standardRows[i].coefficients.length = p.size) (y : ℕ → K) :
    (getElem p.initialRows i (by simpa using hi)).lhs p.columns.length y =
      Scalar.dot p.standardRows[i].coefficients (p.pointOf y) +
        p.standardRows[i].relation.imbalance i (p.columnValue y) := by
  set c := p.standardRows[i] with hc
  set f : Column → K := fun col => Column.entry c i col * p.columnValue y col with hf
  have hsum : (getElem p.initialRows i (by simpa using hi)).lhs p.columns.length y =
      (p.columns.map f).sum := by
    rw [hf, ← sum_range_width, Row.lhs]
    refine sum_congr rfl fun j hj => ?_
    have hj' := mem_range.mp hj
    rw [entry_initialRows (by simpa using hi) hj', List.getElem?_eq_getElem hj']
    rfl
  have hslacks := sum_auxiliary hi Relation.slackColumn? f fun k r col hcol hne => by
    obtain ⟨_, rfl⟩ | ⟨_, rfl⟩ := Relation.slackColumn?_eq_some_iff.mp hcol <;>
      simp [hf, Column.entry, hne]
  have hartificial := sum_auxiliary hi Relation.artificialColumn? f
    fun k r col hcol hne => by
      obtain ⟨_, rfl⟩ := Relation.artificialColumn?_eq_some_iff.mp hcol
      simp [hf, Column.entry, hne]
  rw [hsum, columns, realColumns, artificialColumns, List.map_append, List.map_append,
    List.sum_append, List.sum_append, hslacks, hartificial,
    sum_decisions hlen (f := Column.entry c i) (fun _ => rfl) y, add_assoc]
  congr 1
  cases c.relation <;> simp [Relation.slackColumn?, Relation.artificialColumn?,
    Relation.imbalance, hf, Column.entry, sub_eq_neg_add]

end Problem
end LinProg
