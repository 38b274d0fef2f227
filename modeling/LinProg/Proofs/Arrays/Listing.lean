import LinProg.Proofs.Arrays.Phases
import LinProg.Proofs.Arrays.Text

/-!
# Listings by position

The names of columns, the costs of the basis and the ratios are looked up by the positions that a
record holds. No look-up fails, and the lines are those of the listing of a run.
-/
namespace LinProg.Arrays
open Simplex
variable {K : Type} [Scalar K] [Printable K]

def cell (value : K) : Option String := fixed 2 value

/-- The line of a numbered constraint. -/
def standardLine (g : Grid K) (names : List String) : Constraint K × Nat → Option (List String)
  | (c, i) => do
      let row ← g.data[i + 1]?
      let entries ← slice row 0 g.columns.length
      let lhs ← linearExpression entries names
      let value ← row[g.columns.length]?
      let rhs ← short value
      return ["", c.name, lhs ++ " = " ++ rhs]

/-- The line of the costs of the first phase, if there is one. -/
def artificialLines (g : Grid K) (names : List String) : Option (List (List String)) :=
  if g.hasArtificial then
    (linearExpression g.phaseOneCosts names).map fun costs => [["", "W", "max W = " ++ costs]]
  else some []

def standardForm (p : Problem K) (g : Grid K) : Option (List (List String)) := do
  let names := g.columns.map p.columnName
  let decisions ← slice names 0 g.size
  let objective ← linearExpression p.objective.coefficients decisions
  let artificial ← artificialLines g names
  let equations ← p.constraints.zipIdx.mapM (standardLine g names)
  return [["", "Z", p.objective.sense.name ++ " Z = " ++ objective]] ++ artificial ++ equations

def Record.choiceText (r : Record K) (names : List String) : Option String :=
  match r.pick with
  | none => some ": optimal"
  | some pick => do
      let entering ← names[pick.entering]?
      match pick.leaving with
      | none => return ": " ++ entering ++ " enters, " ++ "no leaving row (unbounded)"
      | some row => do
          let basic ← r.basis[row]?
          let leaving ← names[basic]?
          let element ← cell (pick.element.getD 0)
          return ": " ++ entering ++ " enters, " ++ (leaving ++ " leaves, pivot = " ++ element)

def Record.title (r : Record K) (names : List String) (twoPhases : Bool) : Option String :=
  (r.choiceText names).map fun choice =>
    "Iteration " ++ r.iteration.repr ++ phaseText twoPhases r.phase ++ choice

def Record.ratioAt (r : Record K) (i : Nat) : Option (Option K) :=
  match r.pick with
  | none => some none
  | some pick => pick.ratios[i]?

/-- The line of a numbered row. -/
def Record.line (r : Record K) (names : List String) : List K × Nat → Option (List String)
  | (entries, i) => do
      let cost ← r.basisCosts[i]?
      let cost ← cell cost
      let basic ← r.basis[i]?
      let name ← names[basic]?
      let texts ← entries.mapM cell
      let ratio ← r.ratioAt i
      let ratio ← ratio.elim (some "-") cell
      return [cost, name] ++ texts ++ [ratio]

def Record.lines (r : Record K) (names : List String) (twoPhases : Bool) :
    Option (List (List String)) := do
  let title ← r.title names twoPhases
  let rows ← r.rows.zipIdx.mapM (r.line names)
  let costs ← r.costs.mapM cell
  let reduced ← r.reduced.mapM cell
  let value ← cell r.value
  return [[title], header names] ++ rows ++
    [["", "Cj"] ++ costs, ["", "Δj"] ++ reduced ++ ["Z = " ++ value]]

def listing (names : List String) (twoPhases : Bool) (standard : List (List String))
    (records : List (Record K)) : Option Table := do
  let blocks ← records.mapM fun r => r.lines names twoPhases
  return (Table.ofHeaders (header names)).pushAll (standard ++ blocks.flatten)

omit [Scalar K] in
theorem cell_eq (value : K) : cell value = some (Simplex.cell value) := fixed_eq 2 value

omit [Scalar K] in
theorem mapM_cell (values : List K) : values.mapM cell = some (values.map Simplex.cell) :=
  mapM_eq_map fun value _ => cell_eq value

variable {p : Problem K}

omit [Printable K] in
theorem getElem?_columnNames {j : ℕ} (hj : j < p.columns.length) :
    p.columnNames[j]? = some (nameAt p.columnNames j) := by
  simp [nameAt, Problem.columnNames, hj]

section
variable {t : Snapshot K} (ht : t.Fits p.columns.length)
include ht

theorem choiceText_recordOf : (recordOf t).choiceText p.columnNames =
    some (Simplex.choiceText p.columnNames t.rows t.choice) := by
  cases hchoice : t.choice with
  | none => simp [Record.choiceText, recordOf, hchoice, Simplex.choiceText]
  | some choice =>
    have hentering := getElem?_columnNames (ht.entering_lt choice hchoice)
    cases hleaving : choice.leaving with
    | none =>
      simp [Record.choiceText, recordOf, hchoice, pickOf, hleaving, Simplex.choiceText, hentering]
    | some row =>
      have hrow : row < t.rows.length := ht.leaving_lt choice hchoice row hleaving
      have hbasic := getElem?_columnNames (ht.shaped.basic_lt _ (List.getElem_mem hrow))
      simp [Record.choiceText, recordOf, hchoice, pickOf, hleaving, Simplex.choiceText, hentering,
        hrow, hbasic, cell_eq]

omit [Printable K] in
theorem ratioAt_recordOf {i : ℕ} (hi : i < t.rows.length) (hratios : i < (ratiosOf t).length) :
    (recordOf t).ratioAt i = some (ratiosOf t)[i] := by
  cases hchoice : t.choice with
  | none => simp [Record.ratioAt, recordOf, hchoice, ratiosOf]
  | some choice =>
    have hlen : i < choice.ratios.length := by
      rw [ht.length_ratios choice hchoice]
      exact hi
    simp [Record.ratioAt, recordOf, hchoice, pickOf, ratiosOf, hlen]

theorem line_recordOf {i : ℕ} (hi : i < t.rows.length) (hratios : i < (ratiosOf t).length) :
    (recordOf t).line p.columnNames (t.rows[i].cells, i) =
      some (rowLine p.columnNames t.costs t.rows[i] (ratiosOf t)[i]) := by
  have hbasic := getElem?_columnNames (ht.shaped.basic_lt _ (List.getElem_mem hi))
  have hcost : (recordOf t).basisCosts[i]? = some (t.rows[i].basicCost t.costs) := by
    simp [recordOf, hi]
  have hbasis : (recordOf t).basis[i]? = some t.rows[i].basic := by
    simp [recordOf, hi]
  have hratio (ratio : Option K) :
      ratio.elim (some "-") cell = some (ratio.elim "-" Simplex.cell) := by
    cases ratio with
    | none => rfl
    | some value => exact cell_eq value
  simp only [Record.line, hcost, hbasis, hbasic, cell_eq, mapM_cell, ratioAt_recordOf ht hi hratios,
    hratio, Option.bind_eq_bind, Option.bind_some]
  rfl

omit [Printable K] in
theorem length_ratiosOf : (ratiosOf t).length = t.rows.length := by
  cases hchoice : t.choice with
  | none => simp [ratiosOf, hchoice]
  | some choice => simpa [ratiosOf, hchoice] using ht.length_ratios choice hchoice

theorem lines_recordOf (twoPhases : Bool) : (recordOf t).lines p.columnNames twoPhases =
    some (snapshotLines p.columnNames twoPhases t) := by
  have hratios := length_ratiosOf ht
  have hrows : (recordOf t).rows.zipIdx.mapM ((recordOf t).line p.columnNames) =
      some (List.zipWith (rowLine p.columnNames t.costs) t.rows (ratiosOf t)) := by
    apply mapM_zipIdx
    · simp [recordOf, hratios]
    · intro i hi _
      have hi' : i < t.rows.length := by simpa [recordOf] using hi
      rw [Nat.zero_add, List.getElem_zipWith, ← line_recordOf ht hi' (by omega)]
      simp [recordOf]
  simp only [Record.lines, Record.title, choiceText_recordOf ht, hrows, mapM_cell, cell_eq,
    Option.map_some, Option.bind_eq_bind, Option.bind_some]
  rfl

end

theorem listing_eq {snapshots : List (Snapshot K)}
    (h : ∀ t ∈ snapshots, t.Fits p.columns.length) (twoPhases : Bool)
    (standard : List (List String)) :
    listing p.columnNames twoPhases standard (snapshots.map recordOf) =
      some ((Table.ofHeaders (header p.columnNames)).pushAll
        (standard ++ snapshots.flatMap (snapshotLines p.columnNames twoPhases))) := by
  have hblocks : (snapshots.map recordOf).mapM (fun r => r.lines p.columnNames twoPhases) =
      some (snapshots.map (snapshotLines p.columnNames twoPhases)) := by
    rw [List.mapM_map]
    exact mapM_eq_map fun t ht => lines_recordOf (h t ht) twoPhases
  simp only [listing, hblocks, Option.bind_eq_bind, Option.bind_some, List.flatMap_def]
  rfl

theorem standardLine_gridOf {costs top : List K} {rows : List (Row K)}
    (h : Shaped p.columns.length rows) {i : ℕ} (hi : i < rows.length) (c : Constraint K) :
    standardLine (gridOf p costs top rows) p.columnNames (c, i) =
      some ["", c.name, Display.linearExpression rows[i].entries p.columnNames ++ " = " ++
        Display.short rows[i].rhs] := by
  have hmem := List.getElem_mem hi
  have hlen := h.length_entries _ hmem
  have hentries : slice rows[i].cells 0 p.columns.length = some rows[i].entries := by
    rw [slice_eq (Nat.zero_le _) (by simp [Row.cells, hlen]), List.drop_zero, Row.cells, ← hlen,
      List.take_left]
  simp [standardLine, getElem?_data_succ hi, hentries, getElem?_cells_rhs h hmem]

theorem standardForm_gridOf (costs top : List K) :
    standardForm p (gridOf p costs top p.initialRows) = some (standardLines p).tail := by
  have hshaped := Shaped.initialRows p
  have hequations : p.constraints.zipIdx.mapM
      (standardLine (gridOf p costs top p.initialRows) p.columnNames) =
        some (List.zipWith (fun (c : Constraint K) r => ["", c.name,
          Display.linearExpression r.entries p.columnNames ++ " = " ++ Display.short r.rhs])
            p.constraints p.initialRows) := by
    apply mapM_zipIdx
    · simp
    · intro i hi _
      rw [Nat.zero_add, List.getElem_zipWith]
      exact standardLine_gridOf hshaped (by simpa using hi) _
  have hnames : slice p.columnNames 0 p.size = some (p.columnNames.take p.size) := by
    rw [slice_eq (Nat.zero_le _) (by simpa [Problem.columnNames] using p.size_le_length_columns)]
    rfl
  have hartificial : artificialLines (gridOf p costs top p.initialRows) p.columnNames =
      some (if p.artificialColumns.isEmpty then [] else [["", "W", "max W = " ++
        Display.linearExpression p.artificialCosts p.columnNames]]) := by
    rw [artificialLines, hasArtificial_gridOf, linearExpression_eq]
    cases p.artificialColumns.isEmpty <;> rfl
  have hcolumns : (gridOf p costs top p.initialRows).columns.map p.columnName = p.columnNames := rfl
  simp only [standardForm, hcolumns, gridOf_size, hnames, linearExpression_eq, hartificial,
    hequations, Option.bind_eq_bind, Option.bind_some]
  rfl

end LinProg.Arrays
