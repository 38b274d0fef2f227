import LinProg.Proofs.Problem.Names
import LinProg.Proofs.Scalar.Rational
import LinProg.Proofs.Solver.Answers
import LinProg.Service

/-!
# Names are for display

The names of a problem show up in tables and in the sentences of failures, and nowhere else. Two
problems that differ only in their names have the same answers, and tables of the same shape.
Nothing is assumed of the numbers.
-/
namespace LinProg

/-- The number of cells in the header of a table and in each of its rows. -/
def Table.shape (t : Table) : ℕ × List ℕ := (t.headers.length, t.rows.map List.length)

theorem Table.shape_pushAll {headers headers' : List String} {rows rows' : List (List String)}
    (hheaders : headers.length = headers'.length)
    (hrows : rows.map List.length = rows'.map List.length) :
    ((ofHeaders headers).pushAll rows).shape = ((ofHeaders headers').pushAll rows').shape := by
  have hshape (hs : List String) (rs : List (List String)) :
      ((ofHeaders hs).pushAll rs).shape =
        (hs.length, (rs.map List.length).map (max hs.length)) := by
    simp [pushAll_eq, shape, ofHeaders, Function.comp_def]
  rw [hshape, hshape, hheaders, hrows]

variable {K : Type} [Scalar K]

/-- What a solution says apart from the words in its table. -/
def Solution.outline (a : Solution K) : Solution K × ℕ × List ℕ :=
  ({ a with table := .empty }, a.table.shape)

/-- Two solutions that differ at most in their tables. -/
structure Solution.Agrees (a b : Solution K) : Prop where
  status : a.status = b.status
  method : a.method = b.method
  coordinates : a.coordinates = b.coordinates
  value : a.value = b.value

omit [Scalar K] in
theorem Solution.agrees_of_outline {a b : Solution K} (h : a.outline = b.outline) : a.Agrees b := by
  have hbody : { a with table := .empty } = { b with table := .empty } := congrArg Prod.fst h
  obtain ⟨hstatus, hmethod, hcoordinates, hvalue, _⟩ := Solution.mk.inj hbody
  exact ⟨hstatus, hmethod, hcoordinates, hvalue⟩

omit [Scalar K] in
theorem Solution.outline_optimal (method : Method) (coordinates : List K) (value : K)
    {t t' : Table} (h : t.shape = t'.shape) :
    (optimal method coordinates value t).outline = (optimal method coordinates value t').outline :=
  Prod.ext rfl h

section
variable [Printable K]

namespace Simplex

theorem map_length_standardLines (p : Problem K) :
    (standardLines p.unnamed).map List.length = (standardLines p).map List.length := by
  simp only [standardLines, Problem.unnamed_artificialColumns, Problem.unnamed_initialRows,
    Problem.unnamed_constraints, List.map_append, List.map_zipWith, List.zipWith_map_left,
    List.map_cons, List.length_cons]
  split_ifs <;> simp only [List.map_cons, List.map_nil, List.length_cons]

theorem map_length_snapshotLines {names names' : List String} (h : names.length = names'.length)
    (twoPhases : Bool) (t : Snapshot K) :
    (snapshotLines names twoPhases t).map List.length =
      (snapshotLines names' twoPhases t).map List.length := by
  simp [snapshotLines, List.map_zipWith, rowLine, header, h]

theorem shape_listing (p : Problem K) (withStandardForm : Bool) (visited : List (Snapshot K)) :
    (listing p.unnamed withStandardForm visited).shape =
      (listing p withStandardForm visited).shape := by
  have hnames : p.unnamed.columnNames.length = p.columnNames.length := by
    simp [Problem.columnNames]
  apply Table.shape_pushAll
  · simp [header, hnames]
  · have hform : (if withStandardForm then standardLines p.unnamed else []).map List.length =
        (if withStandardForm then standardLines p else []).map List.length := by
      split_ifs
      · exact map_length_standardLines p
      · rfl
    simp only [List.map_append, hform, List.map_flatMap, Problem.unnamed_artificialColumns,
      map_length_snapshotLines hnames]

end Simplex

theorem Problem.shape_graphicalTable (p : Problem K) :
    p.unnamed.graphicalTable.shape = p.graphicalTable.shape := by
  apply Table.shape_pushAll rfl
  have hpoints (i : ℕ) (l : Line K) : p.unnamed.drawingPoints i l = p.drawingPoints i l := by
    simp only [drawingPoints, unnamed_boundaries]
  have hrow (i : ℕ) (c : Constraint K) :
      (p.unnamed.graphicalRow c.unnamed i).length = (p.graphicalRow c i).length := by
    simp [graphicalRow, hpoints]
  have hrows :
      (p.unnamed.constraints.mapIdx fun i c => p.unnamed.graphicalRow c i).map List.length =
      (p.constraints.mapIdx fun i c => p.graphicalRow c i).map List.length := by
    apply List.ext_getElem
    · simp
    · intro i _ _
      simp [hrow]
  rw [List.map_append, List.map_append, hrows]
  rfl

end

namespace Solver

/-- An answer without the words of its table or its failure. -/
def report (x : Except Failure (Solution K)) : Except Status (Solution K × ℕ × List ℕ) :=
  (x.map Solution.outline).mapError Failure.status

/-- Names do not decide whether a problem is refused, nor how its refusal is reported. -/
theorem report_validate_bind (p : Problem K) {k k' : Except Failure (Solution K)}
    (h : report k = report k') :
    report (do p.unnamed.validate; k) = report (do p.validate; k') := by
  have hsome := p.isSome_fault?_unnamed
  simp only [Problem.validate]
  cases hp : p.fault? with
  | none =>
    rw [hp, Option.isSome_none, Option.isSome_eq_false_iff, Option.isNone_iff_eq_none] at hsome
    rw [hsome]
    exact h
  | some e =>
    rw [hp, Option.isSome_some] at hsome
    obtain ⟨e', he'⟩ := Option.isSome_iff_exists.mp hsome
    have hstatus : e'.status = e.status := by
      rw [Problem.status_of_fault? he', Problem.status_of_fault? hp]
    rw [he']
    exact congrArg Except.error hstatus

variable [Printable K]

theorem report_present (m : Method) (p : Problem K) (run : Run K) :
    report (present m p.unnamed run) = report (present m p run) := by
  have houtline (best : Optimum K) := Solution.outline_optimal m best.coordinates best.value
    (Simplex.shape_listing p (m == .general) run.trace)
  simp only [report, present]
  cases run.outcome with
  | error e => simp only [Except.map]
  | ok best => simp only [Except.map, houtline]

variable [Polar K]

theorem report_solveBy (s : Solver K) (p : Problem K) (m : Method) :
    report (s.solveBy p.unnamed m) = report (s.solveBy p m) := by
  by_cases hm : m = .graphical
  · subst hm
    apply report_validate_bind
    rw [Problem.unnamed_bestVertex]
    cases p.bestVertex s.feasibilityTolerance with
    | error e => exact congrArg report (Eq.refl (Except.error e))
    | ok best =>
      exact congrArg Except.ok (Solution.outline_optimal .graphical best.toList (p.valueAt best)
        p.shape_graphicalTable)
  · rw [solveBy_of_ne_graphical s _ hm, solveBy_of_ne_graphical s _ hm]
    apply report_validate_bind
    rw [Problem.unnamed_simplex]
    exact report_present m p _

/-- The names of a problem play no part in its solution. -/
theorem outline_solve_unnamed (s : Solver K) (p : Problem K) (asked : Method) :
    (s.solve p.unnamed asked).outline = (s.solve p asked).outline := by
  have hsome := p.isSome_fault?_unnamed
  rw [solve, solve]
  cases hp : p.fault? with
  | some e =>
    rw [hp, Option.isSome_some] at hsome
    obtain ⟨e', he'⟩ := Option.isSome_iff_exists.mp hsome
    simp only [he', Problem.status_of_fault? he', Problem.status_of_fault? hp]
  | none =>
    rw [hp, Option.isSome_none, Option.isSome_eq_false_iff, Option.isNone_iff_eq_none] at hsome
    have hroute : Method.route p.normalized.unnamed asked = Method.route p.normalized asked := rfl
    have hreport := report_solveBy s p.normalized (Method.route p.normalized asked)
    simp only [hsome, Problem.unnamed_normalized, hroute]
    cases hx : s.solveBy p.normalized.unnamed (Method.route p.normalized asked) <;>
      cases hy : s.solveBy p.normalized (Method.route p.normalized asked) <;>
      rw [hx, hy] at hreport
    · have hstatus := Except.error.inj hreport
      simp only [hstatus]
    · cases hreport
    · cases hreport
    · exact Except.ok.inj hreport

theorem outline_solve_congr (s : Solver K) {p q : Problem K} (h : p.unnamed = q.unnamed)
    (asked : Method) : (s.solve p asked).outline = (s.solve q asked).outline := by
  rw [← outline_solve_unnamed s p, h, outline_solve_unnamed]

/-- A problem and the one that its record states have the same solution. -/
theorem agrees_of_toRecord (s : Solver K) (p : Problem K) (asked : Method) :
    ∃ q, p.toRecord.toProblem = .ok q ∧ (s.solve p asked).Agrees (s.solve q asked) := by
  obtain ⟨q, hq, hnames⟩ := p.exists_toProblem_toRecord
  exact ⟨q, hq, Solution.agrees_of_outline (outline_solve_congr s hnames.symm asked)⟩

/-- A text that states a problem has the answer that the record of the problem has. -/
theorem solveText_eq_solveRecord (text : List Char) (name : String) :
    (Service.solveText text name : Except String (Solution K)).map Solution.outline =
      (Service.problemOfText text).map fun p : Problem K =>
        (Service.solveRecord p.toRecord name).outline := by
  rw [Service.solveText]
  cases (Service.problemOfText text : Except String (Problem K)) with
  | error e => rfl
  | ok p =>
    obtain ⟨q, hq, hnames⟩ := p.exists_toProblem_toRecord
    simp only [Except.map, Service.solveRecord, hq]
    rw [outline_solve_congr default hnames]

/-- Problems that differ only in their names have the same solutions up to the words of the tables,
and the same regions and vertices. A record, which has no names, and the problem it was made of have
the same solution. -/
theorem solve_ignores_names (s : Solver K) {p q : Problem K} (h : p.unnamed = q.unnamed)
    (asked : Method) :
    (s.solve p asked).Agrees (s.solve q asked) ∧
      (s.solve p asked).table.shape = (s.solve q asked).table.shape ∧
      p.region = q.region ∧ p.candidateVertices = q.candidateVertices ∧
      (∃ r, p.toRecord.toProblem = .ok r ∧ (s.solve p asked).Agrees (s.solve r asked)) ∧
      (∀ text m, Problem.ofText? text = .ok m →
        ∃ r, m.toRecord.toProblem = .ok r ∧ (s.solve m asked).Agrees (s.solve r asked)) ∧
      ∀ text name, (Service.solveText text name : Except String (Solution K)).map Solution.outline =
        (Service.problemOfText text).map fun m : Problem K =>
          (Service.solveRecord m.toRecord name).outline := by
  have houtline := outline_solve_congr s h asked
  refine ⟨Solution.agrees_of_outline houtline, congrArg Prod.snd houtline, ?_, ?_,
    agrees_of_toRecord s p asked, ?_, solveText_eq_solveRecord⟩
  · rw [← p.unnamed_region, h, q.unnamed_region]
  · rw [← p.unnamed_candidateVertices, h, q.unnamed_candidateVertices]
  · intro text m _
    exact agrees_of_toRecord s m asked

/-- Three products with fewer names than variables and one name for all constraints. -/
def vagueProducts : Problem ℚ where
  names := ["a"]
  objective := ⟨[3, 5, 4], .max⟩
  constraints := [⟨"", [2, 3, 0], .le, 8⟩, ⟨"", [0, 2, 5], .le, 10⟩, ⟨"", [3, 2, 4], .le, 15⟩]
  toggles := .none

theorem solve_ignores_names_vagueProducts : threeProducts.unnamed = vagueProducts.unnamed ∧
    (default.solve threeProducts .general).status = .optimal ∧
      (default.solve threeProducts .general).Agrees (default.solve vagueProducts .general) ∧
        (default.solve threeProducts .general).table.shape =
          (default.solve vagueProducts .general).table.shape :=
  have hnames : threeProducts.unnamed = vagueProducts.unnamed := by decide
  have h := solve_ignores_names default hnames .general
  ⟨hnames, by decide +kernel, h.1, h.2.1⟩

end Solver
end LinProg
