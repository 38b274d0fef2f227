import LinProg.Simplex.Tableau
import Mathlib.Algebra.BigOperators.Fin
import Mathlib.Data.List.Nodup

/-!
# The columns of the first tableau

Every column of a tableau stands at one position: the variables of the problem first, in order,
then slacks and surpluses, then artificial columns. Positions below the number of real columns are
exactly those of columns that are not artificial.
-/
namespace LinProg

section
variable {A B : Type}

theorem mem_filterMap_mapIdx {xs : List A} {f : ℕ → A → Option B} {b : B} :
    b ∈ (xs.mapIdx f).filterMap id ↔ ∃ i, ∃ h : i < xs.length, f i xs[i] = some b := by
  simp [List.mem_filterMap, List.mem_mapIdx, eq_comm]

/-- What numbered entries give stands in the order of the entries. -/
theorem pairwise_filterMap_mapIdx {xs : List A} {f : ℕ → A → Option B} (place : B → ℕ) {k : ℕ}
    (h : ∀ i x b, f i x = some b → place b = i + k) :
    ((xs.mapIdx f).filterMap id).Pairwise fun b c => place b < place c := by
  induction xs generalizing f k with
  | nil => simp
  | cons x xs ih =>
    have htail := ih (f := fun i => f (i + 1)) (k := k + 1)
      fun i x b hb => by rw [h _ _ _ hb]; omega
    rw [List.mapIdx_cons]
    cases hx : f 0 x with
    | none => simpa using htail
    | some b =>
      rw [List.filterMap_cons]
      refine List.pairwise_cons.mpr ⟨fun c hc => ?_, htail⟩
      obtain ⟨i, _, hi⟩ := mem_filterMap_mapIdx.mp hc
      have hb := h _ _ _ hx
      have hc := h _ _ _ hi
      omega

theorem sum_filterMap_mapIdx {K : Type} [AddCommMonoid K] (xs : List A) (f : ℕ → A → Option B)
    (g : B → K) : (((xs.mapIdx f).filterMap id).map g).sum =
      ∑ i : Fin xs.length, (f i (xs.get i)).elim 0 g := by
  induction xs generalizing f with
  | nil => simp
  | cons x xs ih =>
    have htail := ih fun i => f (i + 1)
    change _ = ∑ i : Fin (xs.length + 1), (f i ((x :: xs).get i)).elim 0 g
    rw [List.mapIdx_cons, Fin.sum_univ_succ]
    cases hx : f 0 x with
    | none => simpa [hx] using htail
    | some b => simpa [hx] using congrArg (g b + ·) htail

end

/-- The number of the variable or of the row that a column belongs to. -/
def Column.place : Column → ℕ
  | decision j => j
  | slack i => i
  | surplus i => i
  | artificial i => i

/-- The number of the block that a column stands in: the variables, the slacks and surpluses, the
artificial columns. -/
def Column.block : Column → ℕ
  | decision _ => 0
  | slack _ => 1
  | surplus _ => 1
  | artificial _ => 2

/-- A column stands in an earlier block than another one, or further to the front of the same. -/
def Column.Precedes (a b : Column) : Prop :=
  a.block < b.block ∨ a.block = b.block ∧ a.place < b.place

namespace Relation

theorem slackColumn?_eq_some_iff {r : Relation} {i : ℕ} {c : Column} :
    r.slackColumn? i = some c ↔ r = .le ∧ c = .slack i ∨ r = .ge ∧ c = .surplus i := by
  cases r <;> simp [slackColumn?, eq_comm]

theorem artificialColumn?_eq_some_iff {r : Relation} {i : ℕ} {c : Column} :
    r.artificialColumn? i = some c ↔ r ≠ .le ∧ c = .artificial i := by
  cases r <;> simp [artificialColumn?, eq_comm]

theorem isArtificial_basicColumn (r : Relation) (i : ℕ) :
    (r.basicColumn i).isArtificial = true ↔ r ≠ .le := by
  cases r <;> simp [basicColumn, Column.isArtificial]

theorem place_of_slackColumn? {r : Relation} {i : ℕ} {c : Column}
    (h : r.slackColumn? i = some c) : c.block = 1 ∧ c.place = i := by
  obtain ⟨_, rfl⟩ | ⟨_, rfl⟩ := slackColumn?_eq_some_iff.mp h <;> exact ⟨rfl, rfl⟩

theorem place_of_artificialColumn? {r : Relation} {i : ℕ} {c : Column}
    (h : r.artificialColumn? i = some c) : c.block = 2 ∧ c.place = i := by
  obtain ⟨_, rfl⟩ := artificialColumn?_eq_some_iff.mp h
  exact ⟨rfl, rfl⟩

end Relation

variable {K : Type} [Scalar K]

namespace Problem

@[simp] theorem length_standardRows (p : Problem K) :
    p.standardRows.length = p.constraints.length := List.length_map _

theorem length_realColumns_le (p : Problem K) : p.realColumns.length ≤ p.columns.length := by
  simp [columns]

theorem size_le_length_columns (p : Problem K) : p.size ≤ p.columns.length := by
  simp only [columns, realColumns, List.length_append, List.length_map, List.length_range]
  omega

theorem mem_realColumns {p : Problem K} {c : Column} :
    c ∈ p.realColumns ↔ (∃ j < p.size, c = .decision j) ∨
      ∃ i, ∃ h : i < p.standardRows.length, p.standardRows[i].relation.slackColumn? i = some c := by
  rw [realColumns, List.mem_append, mem_filterMap_mapIdx]
  simp [eq_comm]

theorem mem_artificialColumns {p : Problem K} {c : Column} :
    c ∈ p.artificialColumns ↔ ∃ i, ∃ h : i < p.standardRows.length,
      p.standardRows[i].relation.artificialColumn? i = some c := mem_filterMap_mapIdx

/-- The columns that the variables of a problem and its rows in standard form ask for. -/
def AsksFor (p : Problem K) : Column → Prop
  | .decision j => j < p.size
  | .slack i => ∃ c, p.standardRows[i]? = some c ∧ c.relation = .le
  | .surplus i => ∃ c, p.standardRows[i]? = some c ∧ c.relation = .ge
  | .artificial i => ∃ c, p.standardRows[i]? = some c ∧ c.relation ≠ .le

theorem mem_columns_iff {p : Problem K} {c : Column} : c ∈ p.columns ↔ p.AsksFor c := by
  rw [columns, List.mem_append, mem_realColumns, mem_artificialColumns]
  simp only [Relation.slackColumn?_eq_some_iff, Relation.artificialColumn?_eq_some_iff]
  cases c <;> simp [AsksFor, List.getElem?_eq_some_iff]

theorem isArtificial_of_mem_realColumns {p : Problem K} {c : Column} (h : c ∈ p.realColumns) :
    c.isArtificial = false := by
  rcases mem_realColumns.mp h with ⟨j, _, rfl⟩ | ⟨i, hi, hc⟩
  · rfl
  · obtain ⟨_, rfl⟩ | ⟨_, rfl⟩ := Relation.slackColumn?_eq_some_iff.mp hc <;> rfl

theorem isArtificial_of_mem_artificialColumns {p : Problem K} {c : Column}
    (h : c ∈ p.artificialColumns) : c.isArtificial = true := by
  obtain ⟨i, hi, hc⟩ := mem_artificialColumns.mp h
  obtain ⟨_, rfl⟩ := Relation.artificialColumn?_eq_some_iff.mp hc
  rfl

/-- The blocks of columns follow one another, each in the order of the variables or the rows. -/
theorem pairwise_columns (p : Problem K) : p.columns.Pairwise Column.Precedes := by
  -- the places grow within a block, and one block stands before the next
  have hblock {block : ℕ} {cs : List Column} (hcs : ∀ c ∈ cs, c.block = block)
      (hplace : cs.Pairwise fun a b => a.place < b.place) : cs.Pairwise Column.Precedes :=
    hplace.imp_of_mem fun ha hb hlt => .inr ⟨(hcs _ ha).trans (hcs _ hb).symm, hlt⟩
  have hdecisions : ∀ c ∈ (List.range p.size).map Column.decision, c.block = 0 := by
    intro c hc
    obtain ⟨j, _, rfl⟩ := List.mem_map.mp hc
    rfl
  have hslacks : ∀ c ∈ (p.standardRows.mapIdx fun i c => c.relation.slackColumn? i).filterMap id,
      c.block = 1 := by
    intro c hc
    obtain ⟨i, hi, hc⟩ := mem_filterMap_mapIdx.mp hc
    exact (Relation.place_of_slackColumn? hc).1
  have hartificial : ∀ c ∈ p.artificialColumns, c.block = 2 := by
    intro c hc
    obtain ⟨i, hi, hc⟩ := mem_artificialColumns.mp hc
    exact (Relation.place_of_artificialColumn? hc).1
  refine List.pairwise_append.mpr ⟨List.pairwise_append.mpr
    ⟨hblock hdecisions ?_, hblock hslacks ?_, ?_⟩, hblock hartificial ?_, ?_⟩
  · exact List.pairwise_map.mpr List.pairwise_lt_range
  · exact pairwise_filterMap_mapIdx (k := 0) Column.place
      fun i c b hb => (Relation.place_of_slackColumn? hb).2
  · intro a ha b hb
    left
    rw [hdecisions a ha, hslacks b hb]
    exact Nat.zero_lt_one
  · exact pairwise_filterMap_mapIdx (k := 0) Column.place
      fun i c b hb => (Relation.place_of_artificialColumn? hb).2
  · intro a ha b hb
    left
    rw [hartificial b hb]
    rcases List.mem_append.mp ha with ha | ha
    · rw [hdecisions a ha]
      exact Nat.zero_lt_two
    · rw [hslacks a ha]
      exact Nat.one_lt_two

/-- No column stands at two positions. -/
theorem nodup_columns (p : Problem K) : p.columns.Nodup := by
  refine p.pairwise_columns.imp fun {a b} hab heq => ?_
  subst heq
  rcases hab with hlt | ⟨_, hlt⟩ <;> exact Nat.lt_irrefl _ hlt

theorem getElem?_decision {p : Problem K} {j : ℕ} (hj : j < p.size) :
    p.columns[j]? = some (.decision j) := by
  simp [columns, realColumns, List.getElem?_append, hj]

theorem isArtificial_getElem_iff {p : Problem K} {j : ℕ} (hj : j < p.columns.length) :
    p.columns[j].isArtificial = true ↔ p.realColumns.length ≤ j := by
  simp only [columns, List.getElem_append]
  split_ifs with h
  · simp [isArtificial_of_mem_realColumns (List.getElem_mem h), h]
  · simpa [isArtificial_of_mem_artificialColumns (List.getElem_mem _)] using h

/-- Whether the column at a position is artificial. -/
def isArtificialAt (p : Problem K) (j : ℕ) : Bool := (p.columns[j]?).any Column.isArtificial

theorem isArtificialAt_iff {p : Problem K} {j : ℕ} :
    p.isArtificialAt j = true ↔ p.realColumns.length ≤ j ∧ j < p.columns.length := by
  rw [isArtificialAt]
  rcases Nat.lt_or_ge j p.columns.length with hj | hj
  · rw [List.getElem?_eq_getElem hj, Option.any_some, isArtificial_getElem_iff hj]
    exact (and_iff_left hj).symm
  · rw [List.getElem?_eq_none hj]
    simp [hj]

theorem isArtificialAt_of_lt {p : Problem K} {j : ℕ} (hj : j < p.realColumns.length) :
    p.isArtificialAt j = false := by
  rw [← Bool.not_eq_true, isArtificialAt_iff]
  omega

theorem idxOf_decision {p : Problem K} {j : ℕ} (hj : j < p.size) :
    p.columns.idxOf (.decision j) = j := by
  obtain ⟨hlen, hget⟩ := List.getElem?_eq_some_iff.mp (getElem?_decision hj)
  rw [← hget]
  exact p.nodup_columns.idxOf_getElem j hlen

theorem slackColumn?_mem {p : Problem K} {i : ℕ} (hi : i < p.standardRows.length) {c : Column}
    (hc : p.standardRows[i].relation.slackColumn? i = some c) : c ∈ p.columns :=
  List.mem_append_left _ (mem_realColumns.mpr (.inr ⟨i, hi, hc⟩))

theorem artificialColumn?_mem {p : Problem K} {i : ℕ} (hi : i < p.standardRows.length) {c : Column}
    (hc : p.standardRows[i].relation.artificialColumn? i = some c) : c ∈ p.columns :=
  List.mem_append_right _ (mem_artificialColumns.mpr ⟨i, hi, hc⟩)

/-- The column that a row is solved for at first is one of the columns. -/
theorem basicColumn_mem {p : Problem K} {i : ℕ} (hi : i < p.standardRows.length) :
    p.standardRows[i].relation.basicColumn i ∈ p.columns := by
  cases hr : p.standardRows[i].relation with
  | le => exact slackColumn?_mem hi (by rw [hr]; rfl)
  | ge => exact artificialColumn?_mem hi (by rw [hr]; rfl)
  | eq => exact artificialColumn?_mem hi (by rw [hr]; rfl)

@[simp] theorem length_initialRows (p : Problem K) :
    p.initialRows.length = p.constraints.length := by
  simp [initialRows]

theorem getElem_initialRows {p : Problem K} {i : ℕ} (hi : i < p.initialRows.length) :
    p.initialRows[i] =
      { basic := p.columns.idxOf
          ((getElem p.standardRows i (by simpa using hi)).relation.basicColumn i)
        entries := p.columns.map (Column.entry (getElem p.standardRows i (by simpa using hi)) i)
        rhs := (getElem p.standardRows i (by simpa using hi)).rhs } := by
  simp [initialRows]

@[simp] theorem length_objectiveCosts (p : Problem K) :
    p.objectiveCosts.length = p.columns.length := List.length_map _

@[simp] theorem length_artificialCosts (p : Problem K) :
    p.artificialCosts.length = p.columns.length := List.length_map _

theorem length_maximized (p : Problem K) : p.maximized.length = p.size := by
  unfold maximized
  split <;> simp [size]

end Problem
end LinProg
