import LinProg.Proofs.Simplex.Soundness
import LinProg.Proofs.Simplex.Steps

/-!
# Traces that can be replayed

The trace of a run that finds an optimum says how each of its tableaus comes from the one before: by
the pivot that is recorded there, which is the one that the rules choose, or, where the second phase
starts, by pivots that make room for real columns. Of the numbers no more is assumed than that they
can be compared, and tolerances may be any.
-/
namespace LinProg

/-- Each entry of a list stands in a relation to the one at its position in another list, also after
that one is replaced. -/
theorem forall₂_set {A B : Type} {R : A → B → Prop} {as : List A} {bs : List B}
    (h : List.Forall₂ R as bs) {i : ℕ} {b : B} (hb : ∀ a c, R a c → bs[i]? = some c → R a b) :
    List.Forall₂ R as (bs.set i b) := by
  induction h generalizing i with
  | nil => exact .nil
  | cons hac htail ih =>
    cases i with
    | zero => exact .cons (hb _ _ hac rfl) htail
    | succ i => exact .cons hac (ih hb)

variable {K : Type} [Scalar K]

/-- The basic column of each row. -/
def Snapshot.basicColumns (t : Snapshot K) : List ℕ := t.rows.map Row.basic

namespace Stage

/-- One record names a pivot, which the rules of a stage choose, and the other one is that of the
tableau after it. -/
structure Pivots (s : Stage K) (t : Snapshot K) (choice : Choice K) (row : ℕ) (u : Snapshot K) :
    Prop where
  choice_eq : t.choice = some choice
  leaving_eq : choice.leaving = some row
  entering : ∃ v, IsFirstLargest s.tolerance (t.reduced.take s.eligible) choice.entering v
  ratios_eq : choice.ratios = t.rows.map (Row.ratio? s.tolerance choice.entering)
  leaving : ∃ v, IsFirstLeast choice.ratios row v
  basis_eq : u.basicColumns = t.basicColumns.set row choice.entering
  rows_eq : u.rows = pivot t.rows row choice.entering
  iteration_eq : u.iteration = t.iteration + 1

def PivotsTo (s : Stage K) (t u : Snapshot K) : Prop := ∃ choice row, s.Pivots t choice row u

/-- What a stage records from a tableau on until no column improves the costs. -/
structure Records (s : Stage K) (trace : List (Snapshot K)) : Prop where
  phase_eq : ∀ t ∈ trace, t.phase = s.phase
  costs_eq : ∀ t ∈ trace, t.costs = s.costs
  reduced_eq : ∀ t ∈ trace, t.reduced = reducedCosts s.costs t.rows
  value_eq : ∀ t ∈ trace, t.value = basicValue s.costs t.rows
  pivots : trace.IsChain s.PivotsTo
  last : ∃ t, trace.getLast? = some t ∧ t.choice = none ∧
    ∀ v ∈ t.reduced.take s.eligible, ¬ s.tolerance < v

variable {s : Stage K}

theorem head?_trace_of_optimal {left made : ℕ} {rows : List (Row K)}
    (h : (s.run left made rows).ending = .optimal) :
    (s.run left made rows).trace.head? = some (s.visit made rows) := by
  obtain htrace | htrace | ⟨_, _, _, _, htrace⟩ := s.run_trace_cases left made rows
  · obtain ⟨visited, hlast⟩ := s.run_trace_of_optimal left made rows h
    rw [htrace] at hlast
    exact absurd hlast.symm (by simp)
  · rw [htrace, List.head?_cons]
  · rw [htrace, List.head?_cons]

section
variable [Scalar.Ordered K]

/-- The pivot that a stage makes at a tableau. -/
theorem pivots_visit {rows : List (Row K)} {column row : ℕ} (made : ℕ)
    (hcolumn : s.entering? rows = some column)
    (hleaving : (s.choose rows column).leaving = some row) :
    s.Pivots (s.visit made rows) (s.choose rows column) row
      (s.visit (made + 1) (pivot rows row column)) where
  choice_eq := by rw [visit, hcolumn]; rfl
  leaving_eq := hleaving
  entering := exists_isFirstLargest hcolumn
  ratios_eq := rfl
  leaving := exists_isFirstLeast hleaving
  basis_eq := map_basic_pivot (leaving_lt hleaving) column
  rows_eq := rfl
  iteration_eq := rfl

theorem isChain_trace {left made : ℕ} {rows : List (Row K)}
    (h : (s.run left made rows).ending = .optimal) :
    (s.run left made rows).trace.IsChain s.PivotsTo := by
  fun_induction s.run left made rows with
  | case1 => exact .singleton _
  | case2 => exact Ending.noConfusion h
  | case3 => exact Ending.noConfusion h
  | case4 made rows column hcolumn left choice visited row hleaving rest ih =>
    have hhead : rest.trace.head? = some _ := head?_trace_of_optimal h
    have hvisited : visited = s.visit made rows := by
      rw [visit, hcolumn]
      rfl
    refine List.isChain_cons.mpr ⟨fun u hu => ?_, ih h⟩
    rw [hhead, Option.mem_some_iff] at hu
    rw [hvisited, ← hu]
    exact ⟨_, _, pivots_visit made hcolumn hleaving⟩

/-- A phase that ends well can be replayed. -/
theorem records_run {left made : ℕ} {rows : List (Row K)}
    (h : (s.run left made rows).ending = .optimal) : s.Records (s.run left made rows).trace := by
  constructor
  case pivots => exact isChain_trace h
  case last =>
    obtain ⟨visited, htrace⟩ := s.run_trace_of_optimal left made rows h
    have hnone := s.entering?_of_optimal left made rows h
    rw [htrace, List.getLast?_concat]
    exact ⟨_, rfl, rfl, not_lt_of_firstLargest_eq_none hnone⟩
  all_goals
    intro t ht
    obtain ⟨k, here, rfl⟩ := exists_visit_of_mem ht
    rfl

end

/-- Every column that enters is one of those that may. -/
theorem entering_lt_of_mem {left made : ℕ} {rows : List (Row K)} {t : Snapshot K}
    (ht : t ∈ (s.run left made rows).trace) {c : Choice K} (hc : t.choice = some c) :
    c.entering < s.eligible := by
  obtain ⟨k, here, rfl⟩ := exists_visit_of_mem ht
  obtain ⟨column, hcolumn, rfl⟩ := Option.map_eq_some_iff.mp hc
  exact (entering?_lt hcolumn).1

end Stage

namespace Problem
variable {p : Problem K}

/-- A basic column stays, or it is artificial and makes room for one that is not. -/
def MakesRoom (p : Problem K) (before after : ℕ) : Prop :=
  after = before ∨ p.isArtificialAt before = true ∧ p.isArtificialAt after = false

/-- The pivots between the phases replace only artificial columns, and by real ones. -/
theorem makesRoom_driveOut {rows : List (Row K)} (h : Shaped p.columns.length rows) (t : K) :
    List.Forall₂ p.MakesRoom (rows.map Row.basic)
      ((driveOut p.realColumns.length t rows).map Row.basic) := by
  refine (driveOut_induction (P := fun later => Shaped p.columns.length later ∧
    List.Forall₂ p.MakesRoom (rows.map Row.basic) (later.map Row.basic)) ?_ ⟨h, ?_⟩).2
  · rintro later row column ⟨hshaped, hbasis⟩ hrow hreal hcolumn _
    refine ⟨hshaped.pivot row (hcolumn.trans_le p.length_realColumns_le), ?_⟩
    rw [map_basic_pivot hrow]
    refine forall₂_set hbasis fun a c hac hc => .inr ⟨?_, isArtificialAt_of_lt hcolumn⟩
    have hartificial : p.isArtificialAt later[row].basic = true :=
      isArtificialAt_iff.mpr ⟨hreal, hshaped.basic_lt _ (List.getElem_mem hrow)⟩
    have hcurrent : c = later[row].basic := by simpa [hrow, eq_comm] using hc
    rw [← hcurrent] at hartificial
    rcases hac with rfl | ⟨ha, _⟩
    · exact hartificial
    · exact ha
  · exact List.forall₂_same.mpr fun _ _ => .inl rfl

/-- What a run with an optimum records of its two phases, of which the first one may be missing. -/
structure Replays (p : Problem K) (limits : Limits K) (one two : List (Snapshot K)) : Prop where
  first_iff : one ≠ [] ↔ p.artificialColumns ≠ []
  records_one : one ≠ [] → (p.stageOne limits).Records one
  records_two : (p.stageTwo limits).Records two
  /-- The record begins at the first tableau, with no pivots made. -/
  start : ∃ t, (one ++ two).head? = some t ∧ t.iteration = 0 ∧ t.rows = p.initialRows
  entering : ∀ t ∈ two, ∀ c ∈ t.choice, p.isArtificialAt c.entering = false
  between : ∀ t ∈ one.getLast?, ∀ u ∈ two.head?, u.iteration = t.iteration ∧
    u.rows = driveOut p.realColumns.length limits.tolerance t.rows ∧
      List.Forall₂ p.MakesRoom t.basicColumns u.basicColumns

/-- The trace of a run that finds an optimum can be replayed. -/
theorem simplex_trace_replays [Scalar.Ordered K] {limits : Limits K} {best : Optimum K}
    (h : (p.simplex limits).outcome = .ok best) :
    ∃ one two, (p.simplex limits).trace = one ++ two ∧ p.Replays limits one two := by
  rcases simplex_ok_cases h with ⟨hart, hending, _, htrace⟩ | ⟨hart, hfirst, hsecond, _, htrace⟩
  · refine ⟨[], _, htrace, ?_⟩
    constructor
    case first_iff => simp [List.isEmpty_iff.mp hart]
    case records_one => exact fun hone => absurd rfl hone
    case records_two => exact Stage.records_run hending
    case start => exact ⟨_, Stage.head?_trace_of_optimal hending, rfl, rfl⟩
    case entering =>
      exact fun t ht c hc => isArtificialAt_of_lt (Stage.entering_lt_of_mem ht hc)
    case between => exact fun t ht => by cases ht
  · have hhead := Stage.head?_trace_of_optimal hfirst
    obtain ⟨visited, hlast⟩ := Stage.run_trace_of_optimal _ _ _ _ hfirst
    have hshaped := (Shaped.initialRows p).run (s := p.stageOne limits) p.length_artificialCosts
      limits.pivots 0
    refine ⟨_, _, htrace, ?_⟩
    constructor
    case first_iff =>
      rw [hlast]
      simpa [List.isEmpty_iff] using hart
    case records_one => exact fun _ => Stage.records_run hfirst
    case records_two => exact Stage.records_run hsecond
    case start => exact ⟨_, by rw [List.head?_append, hhead]; rfl, rfl, rfl⟩
    case entering =>
      exact fun t ht c hc => isArtificialAt_of_lt (Stage.entering_lt_of_mem ht hc)
    case between =>
      intro t ht u hu
      rw [hlast, List.getLast?_concat, Option.mem_some_iff] at ht
      rw [Stage.head?_trace_of_optimal hsecond, Option.mem_some_iff] at hu
      rw [← ht, ← hu]
      exact ⟨rfl, rfl, makesRoom_driveOut hshaped limits.tolerance⟩

/-- The second phase repeats the number of the last tableau of the first, and goes on. -/
theorem simplex_trace_replays_mixedRows :
    let run := mixedRows.simplex ⟨10, 1 / 1000, 1 / 100⟩
    run.outcome = .ok ⟨[5 / 2, 3 / 2], 21 / 2⟩ ∧
      run.trace.map (fun t => (t.phase, t.iteration)) =
        [(.one, 0), (.one, 1), (.one, 2), (.two, 2), (.two, 3)] ∧
      ∃ one two, run.trace = one ++ two ∧
        mixedRows.Replays ⟨10, 1 / 1000, 1 / 100⟩ one two := by
  have hok : (mixedRows.simplex ⟨10, 1 / 1000, 1 / 100⟩).outcome =
      .ok ⟨[5 / 2, 3 / 2], 21 / 2⟩ := by decide +kernel
  exact ⟨hok, by decide +kernel, simplex_trace_replays hok⟩

end Problem
end LinProg
