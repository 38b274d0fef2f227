import LinProg.Proofs.Simplex.Canonical
import LinProg.Proofs.Simplex.Selection
import LinProg.Simplex.Run

/-!
# One phase

What holds at the start of a phase and survives every pivot that the phase may make holds where
the phase ends. The column that enters and the row that leaves are described by the numbers that
were compared; a phase ends where there is no such column or no such row.
-/
namespace LinProg

namespace Stage

section
variable {K : Type} [Scalar K]

/-- A property that every pivot of a phase keeps holds where the phase ends. -/
theorem run_induction {P : List (Row K) → Prop} (s : Stage K)
    (hstep : ∀ rows column row, P rows → s.entering? rows = some column →
      (s.choose rows column).leaving = some row → P (pivot rows row column))
    (left made : ℕ) {rows : List (Row K)} (h : P rows) : P (s.run left made rows).rows := by
  fun_induction s.run left made rows with
  | case1 => exact h
  | case2 => exact h
  | case3 => exact h
  | case4 made rows column hcolumn left choice visited row hrow rest ih =>
    exact ih (hstep _ _ _ h hcolumn hrow)

/-- A phase that ends well ends where no column improves the costs. -/
theorem entering?_of_optimal (s : Stage K) (left made : ℕ) (rows : List (Row K))
    (h : (s.run left made rows).ending = .optimal) :
    s.entering? (s.run left made rows).rows = none := by
  fun_induction s.run left made rows with
  | case1 _ _ _ hnone => exact hnone
  | case2 => exact Ending.noConfusion h
  | case3 => exact Ending.noConfusion h
  | case4 _ _ _ _ _ _ _ _ _ _ ih => exact ih h

/-- The last tableau that such a phase records is the one where it ends. -/
theorem run_trace_of_optimal (s : Stage K) (left made : ℕ) (rows : List (Row K))
    (h : (s.run left made rows).ending = .optimal) : ∃ visited,
      (s.run left made rows).trace = visited ++
        [s.snapshot (s.run left made rows).pivots (s.run left made rows).rows none] := by
  fun_induction s.run left made rows with
  | case1 => exact ⟨[], rfl⟩
  | case2 => exact Ending.noConfusion h
  | case3 => exact Ending.noConfusion h
  | case4 _ _ _ _ _ _ visited _ _ _ ih =>
    obtain ⟨before, htrace⟩ := ih h
    exact ⟨visited :: before, by rw [htrace, List.cons_append]⟩

/-- A phase without a bound ends where no row bounds the column that enters. -/
theorem leaving_of_unbounded (s : Stage K) (left made : ℕ) (rows : List (Row K))
    (h : (s.run left made rows).ending = .unbounded) :
    ∃ column, s.entering? (s.run left made rows).rows = some column ∧
      (s.choose (s.run left made rows).rows column).leaving = none := by
  fun_induction s.run left made rows with
  | case1 => exact Ending.noConfusion h
  | case2 => exact Ending.noConfusion h
  | case3 _ _ column hcolumn _ _ _ hnone => exact ⟨column, hcolumn, hnone⟩
  | case4 _ _ _ _ _ _ _ _ _ _ ih => exact ih h

end

variable {K : Type} [Field K] [LinearOrder K]

theorem entering?_eq_none {s : Stage K} {rows : List (Row K)} (h : s.entering? rows = none)
    {j : ℕ} (hj : j < s.eligible) (hlen : j < s.costs.length) :
    reducedCost s.costs rows j ≤ s.tolerance := by
  refine firstLargest_eq_none h _ (List.mem_of_getElem? (i := j) ?_)
  rw [List.getElem?_take_of_lt hj, reducedCosts_getElem? hlen]

/-- The column that enters has the first largest reduced cost, and it exceeds the tolerance. -/
theorem entering?_eq_some {s : Stage K} {rows : List (Row K)} {column : ℕ}
    (h : s.entering? rows = some column) : column < s.eligible ∧ column < s.costs.length ∧
      s.tolerance < reducedCost s.costs rows column := by
  obtain ⟨v, hv, hlt, _⟩ := firstLargest_eq_some h
  obtain ⟨hlen, _⟩ := List.getElem?_eq_some_iff.mp hv
  rw [List.length_take, length_reducedCosts, lt_min_iff] at hlen
  rw [List.getElem?_take_of_lt hlen.1, reducedCosts_getElem? hlen.2, Option.some.injEq] at hv
  exact ⟨hlen.1, hlen.2, hv ▸ hlt⟩

theorem ratio?_exact (t : K) (c : ℕ) (r : Row K) :
    r.ratio? t c = if t < r.entry c then some (r.rhs / r.entry c) else none := rfl

theorem leaving_eq_none {s : Stage K} {rows : List (Row K)} {column : ℕ}
    (h : (s.choose rows column).leaving = none) : ∀ r ∈ rows, r.entry column ≤ s.tolerance := by
  intro r hr
  have hratio := firstLeast_eq_none h _ (List.mem_map_of_mem hr)
  rw [ratio?_exact] at hratio
  by_contra hlt
  rw [if_pos (not_le.mp hlt)] at hratio
  exact absurd hratio (by simp)

/-- The row that leaves has the least ratio among those whose entry exceeds the tolerance. -/
theorem leaving_eq_some {s : Stage K} {rows : List (Row K)} {column row : ℕ}
    (h : (s.choose rows column).leaving = some row) : ∃ hrow : row < rows.length,
      s.tolerance < rows[row].entry column ∧ ∀ r ∈ rows, s.tolerance < r.entry column →
        rows[row].rhs / rows[row].entry column ≤ r.rhs / r.entry column := by
  obtain ⟨v, hv, hleast⟩ := firstLeast_eq_some h
  rw [List.getElem?_map, Option.map_eq_some_iff] at hv
  obtain ⟨r, hr, hv⟩ := hv
  obtain ⟨hrow, rfl⟩ := List.getElem?_eq_some_iff.mp hr
  rw [ratio?_exact] at hv
  split_ifs at hv with hlt
  refine ⟨hrow, hlt, fun r hr hrlt => ?_⟩
  obtain ⟨i, hi, rfl⟩ := List.getElem_of_mem hr
  rw [Option.some.inj hv]
  refine (hleast i _ ?_).1
  rw [List.getElem?_map, List.getElem?_eq_getElem hi, Option.map_some, ratio?_exact, if_pos hrlt]

end Stage

namespace Problem

section
variable {K : Type} [Scalar K] {p : Problem K} {limits : Limits K}

theorem simplex_of_isEmpty (h : p.artificialColumns.isEmpty = true) :
    p.simplex limits =
      let leg := (p.stageTwo limits).run limits.pivots 0 p.initialRows
      ⟨leg.trace, leg.pivots, p.outcomeOf limits leg⟩ := if_pos h

theorem simplex_of_failure {e : Failure} (h : ¬ p.artificialColumns.isEmpty = true)
    (he : p.phaseOneFailure? limits
      ((p.stageOne limits).run limits.pivots 0 p.initialRows) = some e) :
    p.simplex limits =
      let first := (p.stageOne limits).run limits.pivots 0 p.initialRows
      ⟨first.trace, first.pivots, .error e⟩ := by
  rw [simplex, if_neg h]
  simp only [he]

theorem simplex_of_accepted (h : ¬ p.artificialColumns.isEmpty = true)
    (hnone : p.phaseOneFailure? limits
      ((p.stageOne limits).run limits.pivots 0 p.initialRows) = none) :
    p.simplex limits =
      let first := (p.stageOne limits).run limits.pivots 0 p.initialRows
      let second := (p.stageTwo limits).run (limits.pivots - first.pivots) first.pivots
        (driveOut p.realColumns.length limits.tolerance first.rows)
      ⟨first.trace ++ second.trace, second.pivots, p.outcomeOf limits second⟩ := by
  rw [simplex, if_neg h]
  simp only [hnone]

/-- A run that finds no optimum fails in one of three ways. -/
theorem simplex_error_cases {e : Failure} (h : (p.simplex limits).outcome = .error e) :
    e = .infeasible ∨ e = .unbounded ∨ e = .iterationLimit limits.pivots := by
  have hleg {leg : Leg K} (he : p.outcomeOf limits leg = .error e) :
      e = .infeasible ∨ e = .unbounded ∨ e = .iterationLimit limits.pivots := by
    rw [outcomeOf] at he
    cases hending : leg.ending <;> rw [hending] at he <;> cases he <;> simp
  have hfirst {leg : Leg K} (he : p.phaseOneFailure? limits leg = some e) :
      e = .infeasible ∨ e = .unbounded ∨ e = .iterationLimit limits.pivots := by
    rw [phaseOneFailure?] at he
    cases hending : leg.ending with
    | optimal =>
      rw [hending, Option.ite_none_right_eq_some, Option.some.injEq] at he
      exact .inl he.2.symm
    | unbounded =>
      rw [hending, Option.some.injEq] at he
      exact .inl he.symm
    | exhausted =>
      rw [hending, Option.some.injEq] at he
      exact .inr (.inr he.symm)
  by_cases hart : p.artificialColumns.isEmpty = true
  · rw [simplex_of_isEmpty hart] at h
    exact hleg h
  · cases he : p.phaseOneFailure? limits
      ((p.stageOne limits).run limits.pivots 0 p.initialRows) with
    | some failure =>
      rw [simplex_of_failure hart he] at h
      cases h
      exact hfirst he
    | none =>
      rw [simplex_of_accepted hart he] at h
      exact hleg h

theorem outcomeOf_eq_ok {leg : Leg K} {best : Optimum K} :
    p.outcomeOf limits leg = .ok best ↔ leg.ending = .optimal ∧ p.optimumAt leg.rows = best := by
  rw [outcomeOf]
  cases leg.ending <;> simp

theorem ending_of_outcomeOf {leg : Leg K} {best : Optimum K}
    (h : p.outcomeOf limits leg = .ok best) : leg.ending = .optimal := (outcomeOf_eq_ok.mp h).1

theorem ending_of_phaseOneFailure? {leg : Leg K}
    (h : p.phaseOneFailure? limits leg = none) : leg.ending = .optimal := by
  rw [phaseOneFailure?] at h
  cases hending : leg.ending with
  | optimal => rfl
  | _ => simp [hending] at h

/-- A run that finds an optimum consists of a second phase that ends well, after a first one that
does if there are artificial columns. -/
theorem simplex_ok_cases {best : Optimum K} (h : (p.simplex limits).outcome = .ok best) :
    (p.artificialColumns.isEmpty = true ∧
      let leg := (p.stageTwo limits).run limits.pivots 0 p.initialRows
      leg.ending = .optimal ∧ p.optimumAt leg.rows = best ∧
        (p.simplex limits).trace = leg.trace) ∨
    (¬ p.artificialColumns.isEmpty = true ∧
      let first := (p.stageOne limits).run limits.pivots 0 p.initialRows
      let second := (p.stageTwo limits).run (limits.pivots - first.pivots) first.pivots
        (driveOut p.realColumns.length limits.tolerance first.rows)
      first.ending = .optimal ∧ second.ending = .optimal ∧ p.optimumAt second.rows = best ∧
        (p.simplex limits).trace = first.trace ++ second.trace) := by
  by_cases hart : p.artificialColumns.isEmpty = true
  · rw [simplex_of_isEmpty hart] at h ⊢
    obtain ⟨hending, hbest⟩ := outcomeOf_eq_ok.mp h
    exact .inl ⟨hart, hending, hbest, rfl⟩
  · cases he : p.phaseOneFailure? limits
      ((p.stageOne limits).run limits.pivots 0 p.initialRows) with
    | some e =>
      rw [simplex_of_failure hart he] at h
      cases h
    | none =>
      rw [simplex_of_accepted hart he] at h ⊢
      obtain ⟨hending, hbest⟩ := outcomeOf_eq_ok.mp h
      exact .inr ⟨hart, ending_of_phaseOneFailure? he, hending, hbest, rfl⟩

end

variable {K : Type} [Field K] [LinearOrder K]

theorem phaseOneFailure?_eq_none {p : Problem K} {limits : Limits K} {leg : Leg K}
    (h : p.phaseOneFailure? limits leg = none) : leg.ending = .optimal ∧
      -basicValue p.artificialCosts leg.rows ≤ limits.feasibilityTolerance := by
  have hending := ending_of_phaseOneFailure? h
  rw [phaseOneFailure?, hending, ite_eq_right_iff] at h
  exact ⟨hending, not_lt.mp fun hlt => absurd (h hlt) (by simp)⟩

end Problem
end LinProg
