import LinProg.Proofs.Simplex.Cycling

/-!
# The limit cuts runs short

The limit on the pivots has no part in what a run does before it is met. A run that ends by itself
is the same under every larger limit, and the pivots that a run counts are those that its trace
shows.
Nothing is assumed of the numbers.
-/
namespace LinProg
variable {K : Type} [Scalar K]

/-- Whether a pivot was made at a tableau. -/
def Snapshot.isPivoted (s : Snapshot K) : Bool := s.choice.any fun c => c.leaving.isSome

namespace Stage

omit [Scalar K] in
theorem isPivoted_of_choice {s : Snapshot K} {choice : Choice K} (h : s.choice = some choice) :
    s.isPivoted = choice.leaving.isSome := by
  rw [Snapshot.isPivoted, h, Option.any_some]

/-- The trace of a phase shows the pivots that the phase made. -/
theorem countP_trace (s : Stage K) (left made : ℕ) (rows : List (Row K)) :
    made + (s.run left made rows).trace.countP Snapshot.isPivoted =
      (s.run left made rows).pivots := by
  fun_induction s.run left made rows with
  | case1 => rfl
  | case2 => rfl
  | case3 made rows column hcolumn left choice visited hleaving =>
    have hvisited : visited.isPivoted = false := by
      rw [@isPivoted_of_choice _ visited choice rfl, hleaving, Option.isSome_none]
    simp [hvisited]
  | case4 made rows column hcolumn left choice visited row hleaving rest ih =>
    have hvisited : visited.isPivoted = true := by
      rw [@isPivoted_of_choice _ visited choice rfl, hleaving, Option.isSome_some]
    rw [List.countP_cons_of_pos hvisited, ← Nat.add_assoc, Nat.add_right_comm]
    exact ih

/-- A phase that ends well records a tableau before each pivot and the one where it ends. -/
theorem length_trace_of_optimal (s : Stage K) (left made : ℕ) (rows : List (Row K))
    (h : (s.run left made rows).ending = .optimal) :
    made + (s.run left made rows).trace.length = (s.run left made rows).pivots + 1 := by
  fun_induction s.run left made rows with
  | case1 => rfl
  | case2 => exact Ending.noConfusion h
  | case3 => exact Ending.noConfusion h
  | case4 made rows column hcolumn left choice visited row hleaving rest ih =>
    rw [List.length_cons, ← Nat.add_assoc, Nat.add_right_comm]
    exact ih h

end Stage

/-- How a run counts its pivots: no more than the limit, each of them in the trace, and with an
optimum one more tableau for each phase. -/
structure Run.Counts (r : Run K) (limit phases : ℕ) : Prop where
  pivots_le : r.pivots ≤ limit
  countP_trace : r.trace.countP Snapshot.isPivoted = r.pivots
  length_trace : ∀ best, r.outcome = .ok best → r.trace.length = r.pivots + phases

namespace Problem
variable {p : Problem K}

/-- The number of phases of a run that finds an optimum. -/
def phases (p : Problem K) : ℕ := if p.artificialColumns.isEmpty then 1 else 2

theorem outcomeOf_of_ends {leg : Leg K} (h : leg.ending ≠ .exhausted) (cap cap' : ℕ) (t f : K) :
    p.outcomeOf ⟨cap, t, f⟩ leg = p.outcomeOf ⟨cap', t, f⟩ leg := by
  rw [outcomeOf, outcomeOf]
  cases hending : leg.ending <;> simp_all

/-- A run that the limit does not cut short is the same under a larger limit. -/
theorem simplex_of_le {t f : K} {cap cap' : ℕ} (hle : cap ≤ cap')
    (h : ∀ n, (p.simplex ⟨cap, t, f⟩).outcome ≠ .error (.iterationLimit n)) :
    p.simplex ⟨cap', t, f⟩ = p.simplex ⟨cap, t, f⟩ := by
  by_cases hart : p.artificialColumns.isEmpty = true
  · have hends : ((p.stageTwo ⟨cap, t, f⟩).run cap 0 p.initialRows).ending ≠ .exhausted := by
      intro hcut
      apply h cap
      rw [simplex_of_isEmpty hart]
      exact outcomeOf_of_exhausted hcut
    have hrun : (p.stageTwo ⟨cap', t, f⟩).run cap' 0 p.initialRows =
        (p.stageTwo ⟨cap, t, f⟩).run cap 0 p.initialRows := Stage.run_of_le hends hle
    rw [simplex_of_isEmpty hart, simplex_of_isEmpty hart]
    simp only [hrun, outcomeOf_of_ends hends cap' cap]
  · have hends : ((p.stageOne ⟨cap, t, f⟩).run cap 0 p.initialRows).ending ≠ .exhausted := by
      intro hcut
      exact h cap (simplex_of_cut hart hcut).1
    have hrun : (p.stageOne ⟨cap', t, f⟩).run cap' 0 p.initialRows =
        (p.stageOne ⟨cap, t, f⟩).run cap 0 p.initialRows := Stage.run_of_le hends hle
    cases he : p.phaseOneFailure? ⟨cap, t, f⟩
        ((p.stageOne ⟨cap, t, f⟩).run cap 0 p.initialRows) with
    | some e =>
      have he' : p.phaseOneFailure? ⟨cap', t, f⟩
          ((p.stageOne ⟨cap', t, f⟩).run cap' 0 p.initialRows) = some e := by
        rw [hrun, phaseOneFailure?_of_ends hends cap' cap, he]
      rw [simplex_of_failure hart he, simplex_of_failure hart he']
      simp only [hrun]
    | none =>
      -- what the first phase leaves of the limit is less, but enough for the second phase
      have hnone : p.phaseOneFailure? ⟨0, t, f⟩
          ((p.stageOne ⟨cap, t, f⟩).run cap 0 p.initialRows) = none := by
        rw [phaseOneFailure?_of_ends hends 0 cap, he]
      have hrun' := simplex_of_first hart hends hnone hrun
      have hrun := simplex_of_first hart hends hnone rfl
      rw [hrun] at h ⊢
      have hsecond := fun hcut => h cap (outcomeOf_of_exhausted hcut)
      rw [hrun', Stage.run_of_le hsecond (Nat.sub_le_sub_right hle _)]
      simp only [outcomeOf_of_ends hsecond cap' cap]

/-- A run that a larger limit cuts short is cut short by its own. -/
theorem simplex_limit_of_le {t f : K} {cap cap' : ℕ} (hle : cap ≤ cap') {n : ℕ}
    (h : (p.simplex ⟨cap', t, f⟩).outcome = .error (.iterationLimit n)) :
    (p.simplex ⟨cap, t, f⟩).outcome = .error (.iterationLimit cap) := by
  by_contra hne
  have hends (m : ℕ) : (p.simplex ⟨cap, t, f⟩).outcome ≠ .error (.iterationLimit m) := by
    intro hlimit
    rcases simplex_error_cases hlimit with he | he | he
    · cases he
    · cases he
    · exact hne (he ▸ hlimit)
  rw [simplex_of_le hle hends] at h
  exact hends n h

theorem simplex_counts (p : Problem K) (limits : Limits K) :
    (p.simplex limits).Counts limits.pivots p.phases := by
  by_cases hart : p.artificialColumns.isEmpty = true
  · have hpivots := (p.stageTwo limits).pivots_le limits.pivots 0 p.initialRows
    have hcount := (p.stageTwo limits).countP_trace limits.pivots 0 p.initialRows
    rw [Nat.zero_add] at hpivots hcount
    rw [simplex_of_isEmpty hart, phases, if_pos hart]
    refine ⟨hpivots, hcount, fun best hbest => ?_⟩
    have hlength := Stage.length_trace_of_optimal _ _ _ _ (ending_of_outcomeOf hbest)
    rwa [Nat.zero_add] at hlength
  · have hpivots := (p.stageOne limits).pivots_le limits.pivots 0 p.initialRows
    have hcount := (p.stageOne limits).countP_trace limits.pivots 0 p.initialRows
    rw [Nat.zero_add] at hpivots hcount
    cases he : p.phaseOneFailure? limits
        ((p.stageOne limits).run limits.pivots 0 p.initialRows) with
    | some e =>
      rw [simplex_of_failure hart he]
      exact ⟨hpivots, hcount, fun best hbest => by cases hbest⟩
    | none =>
      have hlength := Stage.length_trace_of_optimal _ _ _ _ (ending_of_phaseOneFailure? he)
      rw [simplex_of_accepted hart he, phases, if_neg hart]
      generalize (p.stageOne limits).run limits.pivots 0 p.initialRows = first at *
      have hpivots' :=
        (p.stageTwo limits).pivots_le (limits.pivots - first.pivots) first.pivots
          (driveOut p.realColumns.length limits.tolerance first.rows)
      have hcount' :=
        (p.stageTwo limits).countP_trace (limits.pivots - first.pivots) first.pivots
          (driveOut p.realColumns.length limits.tolerance first.rows)
      refine ⟨hpivots'.trans_eq (Nat.add_sub_of_le hpivots), ?_, fun best hbest => ?_⟩
      · rw [List.countP_append, hcount]
        exact hcount'
      · have hlength' := Stage.length_trace_of_optimal _ _ _ _ (ending_of_outcomeOf hbest)
        rw [List.length_append]
        dsimp only
        omega

end Problem
end LinProg
