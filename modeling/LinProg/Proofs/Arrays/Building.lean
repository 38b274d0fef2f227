import LinProg.Proofs.Arrays.Pivoting

/-!
# The first tableau by position

The auxiliary columns of the rows are handed out in order, by two running positions. The positions
are those of the columns that the rows name, so that the grid which is filled row by row holds the
rows of the first tableau.
-/
namespace LinProg

section
variable {A B : Type}

theorem filterMap_mapIdx_take_succ {xs : List A} {i : ℕ} (hi : i < xs.length)
    (f : ℕ → A → Option B) : ((xs.take (i + 1)).mapIdx f).filterMap id =
      ((xs.take i).mapIdx f).filterMap id ++ (f i xs[i]).toList := by
  have hlen : (xs.take i).length = i := by
    rw [List.length_take]
    omega
  rw [List.take_succ_eq_append_getElem hi, List.mapIdx_append, List.filterMap_append, hlen]
  cases h : f i xs[i] <;> simp [h]

/-- What an entry gives stands behind what the entries before it give. -/
theorem getElem?_filterMap_mapIdx {xs : List A} {i : ℕ} (hi : i < xs.length)
    {f : ℕ → A → Option B} {b : B} (hb : f i xs[i] = some b) :
    ((xs.mapIdx f).filterMap id)[(((xs.take i).mapIdx f).filterMap id).length]? = some b := by
  conv_lhs => rw [← List.take_append_drop (i + 1) xs]
  rw [List.mapIdx_append, List.filterMap_append, filterMap_mapIdx_take_succ hi, hb]
  simp

theorem map_set_idxOf [DecidableEq A] {xs : List A} (hxs : xs.Nodup) {a : A} (ha : a ∈ xs)
    (f : A → B) (b : B) :
    (xs.map f).set (xs.idxOf a) b = xs.map (Function.update f a b) := by
  induction xs with
  | nil => exact absurd ha List.not_mem_nil
  | cons x xs ih =>
    obtain ⟨hx, hrest⟩ := List.nodup_cons.mp hxs
    by_cases hxa : x = a
    · subst hxa
      have hsame : xs.map (Function.update f x b) = xs.map f := by
        apply List.map_congr_left
        intro y hy
        have hne : y ≠ x := fun hyx => hx (hyx ▸ hy)
        exact Function.update_of_ne hne b f
      simp [hsame]
    · have hmem : a ∈ xs := (List.mem_cons.mp ha).resolve_left fun h => hxa h.symm
      rw [List.idxOf_cons_ne _ hxa, List.map_cons, List.set_cons_succ, ih hrest hmem, List.map_cons,
        Function.update_of_ne hxa]

end

variable {K : Type} [Scalar K]

namespace Problem
variable {p : Problem K}

/-- The number of slacks and surpluses that the rows before one have. -/
def slacksBefore (p : Problem K) (i : ℕ) : ℕ :=
  (((p.standardRows.take i).mapIdx fun i c => c.relation.slackColumn? i).filterMap id).length

def artificialsBefore (p : Problem K) (i : ℕ) : ℕ :=
  (((p.standardRows.take i).mapIdx fun i c => c.relation.artificialColumn? i).filterMap id).length

theorem slacksBefore_succ {i : ℕ} (hi : i < p.standardRows.length) : p.slacksBefore (i + 1) =
    p.slacksBefore i + (p.standardRows[i].relation.slackColumn? i).toList.length := by
  rw [slacksBefore, filterMap_mapIdx_take_succ hi, List.length_append]
  rfl

theorem artificialsBefore_succ {i : ℕ} (hi : i < p.standardRows.length) :
    p.artificialsBefore (i + 1) = p.artificialsBefore i +
      (p.standardRows[i].relation.artificialColumn? i).toList.length := by
  rw [artificialsBefore, filterMap_mapIdx_take_succ hi, List.length_append]
  rfl

theorem idxOf_eq_of_getElem? {j : ℕ} {c : Column} (h : p.columns[j]? = some c) :
    p.columns.idxOf c = j := by
  obtain ⟨hj, hget⟩ := List.getElem?_eq_some_iff.mp h
  rw [← hget]
  exact p.nodup_columns.idxOf_getElem j hj

theorem idxOf_slackColumn? {i : ℕ} (hi : i < p.standardRows.length) {c : Column}
    (hc : p.standardRows[i].relation.slackColumn? i = some c) :
    p.columns.idxOf c = p.size + p.slacksBefore i := by
  have hget := getElem?_filterMap_mapIdx (f := fun i c => c.relation.slackColumn? i) hi hc
  obtain ⟨hlt, _⟩ := List.getElem?_eq_some_iff.mp hget
  apply idxOf_eq_of_getElem?
  rw [columns, List.getElem?_append_left, realColumns, List.getElem?_append_right]
  · simpa [slacksBefore] using hget
  · simp
  · simpa [realColumns, slacksBefore] using hlt

theorem idxOf_artificialColumn? {i : ℕ} (hi : i < p.standardRows.length) {c : Column}
    (hc : p.standardRows[i].relation.artificialColumn? i = some c) :
    p.columns.idxOf c = p.realColumns.length + p.artificialsBefore i := by
  have hget := getElem?_filterMap_mapIdx (f := fun i c => c.relation.artificialColumn? i) hi hc
  apply idxOf_eq_of_getElem?
  rw [columns, List.getElem?_append_right (Nat.le_add_right _ _)]
  simpa [artificialsBefore, artificialColumns] using hget

/-- What is zero at the auxiliary columns is an array of numbers, filled up with zeros. -/
theorem map_columns_eq {f : Column → K} {xs : List K} (hlen : xs.length = p.size)
    (hdecision : ∀ j, f (.decision j) = xs[j]?.getD 0)
    (hauxiliary : ∀ c, (∀ j, c ≠ .decision j) → f c = 0) :
    p.columns.map f = xs ++ List.replicate (p.columns.length - p.size) 0 := by
  have hvariables : ((List.range p.size).map Column.decision).map f = xs := by
    apply List.ext_getElem (by simp [hlen])
    intro j _ hj
    simp [hdecision, hj]
  have hslacks : ∀ c ∈ (p.standardRows.mapIdx fun i c => c.relation.slackColumn? i).filterMap id,
      f c = 0 := by
    intro c hc
    obtain ⟨i, hi, hc⟩ := mem_filterMap_mapIdx.mp hc
    obtain ⟨_, rfl⟩ | ⟨_, rfl⟩ := Relation.slackColumn?_eq_some_iff.mp hc <;>
      exact hauxiliary _ fun _ => Column.noConfusion
  have hartificials : ∀ c ∈ p.artificialColumns, f c = 0 := by
    intro c hc
    obtain ⟨i, hi, hc⟩ := mem_artificialColumns.mp hc
    obtain ⟨_, rfl⟩ := Relation.artificialColumn?_eq_some_iff.mp hc
    exact hauxiliary _ fun _ => Column.noConfusion
  rw [columns, realColumns, List.append_assoc, List.map_append, hvariables]
  congr 1
  apply List.eq_replicate_iff.mpr
  constructor
  · simp
  · intro v hv
    obtain ⟨c, hc, rfl⟩ := List.mem_map.mp hv
    exact (List.mem_append.mp hc).elim (hslacks c) (hartificials c)

/-- The entries of a row of which only the coefficients are written. -/
def bareEntry (c : Constraint K) : Column → K
  | .decision j => c.coefficients[j]?.getD 0
  | _ => 0

/-- The entries of a row with those of its auxiliary columns. -/
def writtenEntry (c : Constraint K) (i : ℕ) : Column → K :=
  match c.relation with
  | .le => Function.update (bareEntry c) (.slack i) 1
  | .ge => Function.update (Function.update (bareEntry c) (.surplus i) (-1)) (.artificial i) 1
  | .eq => Function.update (bareEntry c) (.artificial i) 1

/-- A row has only the auxiliary columns that its relation asks for. -/
theorem auxiliary_of_mem {i : ℕ} (hi : i < p.standardRows.length) {c : Column} (hc : c ∈ p.columns)
    (hplace : c = .slack i ∨ c = .surplus i ∨ c = .artificial i) :
    p.standardRows[i].relation.slackColumn? i = some c ∨
      p.standardRows[i].relation.artificialColumn? i = some c := by
  rcases List.mem_append.mp hc with hreal | hart
  · left
    rcases mem_realColumns.mp hreal with ⟨j, _, rfl⟩ | ⟨k, hk, hslack⟩
    · simp at hplace
    · have hki : k = i := by
        obtain ⟨_, rfl⟩ | ⟨_, rfl⟩ := Relation.slackColumn?_eq_some_iff.mp hslack <;>
          simpa using hplace
      subst hki
      exact hslack
  · right
    obtain ⟨k, hk, hartificial⟩ := mem_artificialColumns.mp hart
    have hki : k = i := by
      obtain ⟨_, rfl⟩ := Relation.artificialColumn?_eq_some_iff.mp hartificial
      simpa using hplace
    subst hki
    exact hartificial

theorem map_entry_eq {i : ℕ} (hi : i < p.standardRows.length) :
    p.columns.map (Column.entry p.standardRows[i] i) =
      p.columns.map (writtenEntry p.standardRows[i] i) := by
  apply List.map_congr_left
  intro x hx
  have haux := auxiliary_of_mem hi hx
  rw [writtenEntry]
  cases hr : p.standardRows[i].relation <;> rw [hr] at haux <;> cases x <;>
    simp [Relation.slackColumn?, Relation.artificialColumn?] at haux <;>
    simp [Column.entry, bareEntry, Function.update_apply, haux]

theorem map_bareEntry {c : Constraint K} (hc : c.coefficients.length = p.size) :
    p.columns.map (bareEntry c) =
      c.coefficients ++ List.replicate (p.columns.length - p.size) 0 := by
  apply map_columns_eq hc
  · intro j
    rfl
  · intro x hx
    cases x with
    | decision j => exact absurd rfl (hx j)
    | _ => rfl

end Problem

namespace Arrays

variable {p : Problem K}

/-- An entry of a row is written at the position of its column. -/
theorem store_column {c : Column} (hc : c ∈ p.columns) {j : ℕ} (hj : p.columns.idxOf c = j)
    (f : Column → K) (v rhs : K) : store (p.columns.map f ++ [rhs]) j v =
      some (p.columns.map (Function.update f c v) ++ [rhs]) := by
  have hlt := List.idxOf_lt_length_iff.mpr hc
  subst hj
  rw [store_eq (by simp; omega), List.set_append_left _ _ (by simpa using hlt),
    map_set_idxOf p.nodup_columns hc]

theorem store_rhs {c : Constraint K} (hc : c.coefficients.length = p.size) :
    store (c.coefficients ++ (List.replicate (p.columns.length + 1) 0).drop p.size)
        p.columns.length c.rhs =
      some (p.columns.map (Problem.bareEntry c) ++ [c.rhs]) := by
  have hsize := p.size_le_length_columns
  have hzeros : (List.replicate (p.columns.length + 1) (0 : K)).drop p.size =
      List.replicate (p.columns.length - p.size) 0 ++ [0] := by
    rw [List.drop_replicate, ← List.replicate_succ']
    congr 1
    omega
  rw [hzeros, ← List.append_assoc, ← Problem.map_bareEntry hc, store_eq (by simp),
    List.set_append_right _ _ (by simp)]
  simp

variable {i : ℕ} (hi : i < p.standardRows.length)
  (hlen : p.standardRows[i].coefficients.length = p.size)
include hlen

/-- The row of a constraint and the next free columns. -/
theorem fillRow_eq : fillRow p.size p.columns.length (p.size + p.slacksBefore i)
    (p.realColumns.length + p.artificialsBefore i) p.standardRows[i]
    (List.replicate (p.columns.length + 1) 0) =
      some ((getElem p.initialRows i (by simpa using hi)).cells,
        (getElem p.initialRows i (by simpa using hi)).basic,
        p.size + p.slacksBefore (i + 1), p.realColumns.length + p.artificialsBefore (i + 1)) := by
  have hsize := p.size_le_length_columns
  rw [fillRow, copyInto_eq (by simp; omega) hlen]
  simp only [Option.bind_eq_bind, Option.bind_some, store_rhs hlen, Row.cells,
    Problem.getElem_initialRows, Problem.map_entry_eq hi, Problem.writtenEntry,
    Problem.slacksBefore_succ hi, Problem.artificialsBefore_succ hi]
  cases hr : p.standardRows[i].relation with
  | le =>
    have hslack : p.standardRows[i].relation.slackColumn? i = some (.slack i) := by rw [hr]; rfl
    have hpos := Problem.idxOf_slackColumn? hi hslack
    simp [store_column (Problem.slackColumn?_mem hi hslack) hpos, Relation.basicColumn, hpos,
      Relation.slackColumn?, Relation.artificialColumn?, Nat.add_assoc]
  | ge =>
    have hsurplus : p.standardRows[i].relation.slackColumn? i = some (.surplus i) := by rw [hr]; rfl
    have hartificial : p.standardRows[i].relation.artificialColumn? i = some (.artificial i) := by
      rw [hr]; rfl
    have hpos := Problem.idxOf_slackColumn? hi hsurplus
    have hpos' := Problem.idxOf_artificialColumn? hi hartificial
    simp [store_column (Problem.slackColumn?_mem hi hsurplus) hpos,
      store_column (Problem.artificialColumn?_mem hi hartificial) hpos', Relation.basicColumn,
      hpos', Relation.slackColumn?, Relation.artificialColumn?, Nat.add_assoc]
  | eq =>
    have hartificial : p.standardRows[i].relation.artificialColumn? i = some (.artificial i) := by
      rw [hr]; rfl
    have hpos := Problem.idxOf_artificialColumn? hi hartificial
    simp [store_column (Problem.artificialColumn?_mem hi hartificial) hpos, Relation.basicColumn,
      hpos, Relation.slackColumn?, Relation.artificialColumn?, Nat.add_assoc]

omit hlen

/-- The grid after the first rows are placed. -/
def fillingAt (p : Problem K) (k : ℕ) : Filling K :=
  ⟨List.replicate (p.columns.length + 1) 0 :: filled (p.initialRows.map Row.cells)
      p.constraints.length (List.replicate (p.columns.length + 1) 0) k,
    filled (p.initialRows.map Row.basic) p.constraints.length 0 k,
    p.size + p.slacksBefore k, p.realColumns.length + p.artificialsBefore k⟩

include hi in
/-- The next row holds zeros still. -/
theorem getElem?_fillingAt :
    (fillingAt p i).data[i + 1]? = some (List.replicate (p.columns.length + 1) 0) := by
  rw [fillingAt, List.getElem?_cons_succ]
  exact getElem?_filled (by simp) (by simpa using hi)

include hlen in
theorem placeRow_fillingAt : placeRow p.size p.columns.length (fillingAt p i)
    (p.standardRows[i], i) = some (fillingAt p (i + 1)) := by
  have hrow : i < p.initialRows.length := by simpa using hi
  have hdata : store (fillingAt p i).data (i + 1) p.initialRows[i].cells =
      some (fillingAt p (i + 1)).data := by
    rw [fillingAt, store_cons_succ, store_filled_map (by simp) hrow]
    rfl
  have hbasis : store (fillingAt p i).basis i p.initialRows[i].basic =
      some (fillingAt p (i + 1)).basis := store_filled_map (by simp) hrow
  have hfill := fillRow_eq hi hlen
  simp only [placeRow, getElem?_fillingAt hi, Option.bind_eq_bind, Option.bind_some]
  rw [show (fillingAt p i).slack = p.size + p.slacksBefore i from rfl,
    show (fillingAt p i).artificial = p.realColumns.length + p.artificialsBefore i from rfl, hfill]
  simp only [Option.bind_some, hdata, hbasis]
  rfl

theorem length_standardized (c : Constraint K) :
    c.standardized.coefficients.length = c.coefficients.length := by
  rw [Constraint.standardized]
  split <;> simp

theorem fillingAt_zero (p : Problem K) : fillingAt p 0 =
    ⟨List.replicate (p.constraints.length + 1) (List.replicate (p.columns.length + 1) 0),
      List.replicate p.constraints.length 0, p.size, p.realColumns.length⟩ := by
  simp [fillingAt, Problem.slacksBefore, Problem.artificialsBefore, List.replicate_succ]

/-- The grid that is built holds the rows of the first tableau. -/
theorem build_eq (hp : ∀ c ∈ p.constraints, c.coefficients.length = p.size) :
    build p = some (gridOf p (List.replicate p.columns.length 0)
      (List.replicate (p.columns.length + 1) 0) p.initialRows) := by
  have hstandard : ∀ c ∈ p.standardRows, c.coefficients.length = p.size := by
    intro c hc
    obtain ⟨d, hd, rfl⟩ := List.mem_map.mp hc
    rw [length_standardized, hp d hd]
  have hloop := foldlM_zipIdx (fillingAt p) fun i hi =>
    placeRow_fillingAt hi (hstandard _ (List.getElem_mem hi))
  have hdata : (fillingAt p p.standardRows.length).data =
      List.replicate (p.columns.length + 1) 0 :: p.initialRows.map Row.cells := by
    have hrows : p.standardRows.length = (p.initialRows.map Row.cells).length := by simp
    rw [fillingAt, hrows, filled_length]
    simp
  have hbasis : (fillingAt p p.standardRows.length).basis = p.initialRows.map Row.basic := by
    have hrows : p.standardRows.length = (p.initialRows.map Row.basic).length := by simp
    rw [fillingAt, hrows, filled_length]
    simp
  rw [fillingAt_zero] at hloop
  simp only [build, hloop, Option.bind_eq_bind, Option.bind_some, hdata, hbasis]
  rfl

theorem phaseTwoCosts_gridOf (costs top : List K) (rows : List (Row K)) :
    phaseTwoCosts p (gridOf p costs top rows) = some p.objectiveCosts := by
  have hlen := p.length_maximized
  have hsize := p.size_le_length_columns
  have hcosts : p.objectiveCosts =
      p.maximized ++ List.replicate (p.columns.length - p.maximized.length) 0 := by
    rw [hlen]
    apply Problem.map_columns_eq hlen
    · intro j
      rfl
    · intro c hc
      cases c with
      | decision j => exact absurd rfl (hc j)
      | _ => rfl
  have hloop := foldlM_zipIdx (filled p.maximized p.columns.length 0)
    (f := fun costs x => store costs x.2 x.1) fun i hi => store_filled (by omega) hi
  rw [filled_zero, filled_length, ← hcosts] at hloop
  exact hloop

end Arrays
end LinProg
