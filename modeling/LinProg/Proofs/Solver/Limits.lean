import LinProg.Proofs.Scalar.Rational
import LinProg.Proofs.Simplex.Soundness
import LinProg.Proofs.Simplex.Truncation
import LinProg.Proofs.Solver.Answers

/-!
# What the limits of a solver change

A larger limit changes nothing but runs that were cut short, and the simplex method and the general
method differ by their limits and by the standard form that the general method shows first. Nothing
is assumed of the numbers.
-/
namespace LinProg
variable {K : Type} [Scalar K] [Printable K]

namespace Simplex

@[simp] theorem listing_headers (p : Problem K) (withStandardForm : Bool)
    (visited : List (Snapshot K)) :
    (listing p withStandardForm visited).headers = header p.columnNames := by
  rw [listing, Table.pushAll_eq]
  rfl

/-- The listing with the standard form is the one without it after the lines of the form. -/
theorem listing_rows (p : Problem K) (visited : List (Snapshot K)) :
    (listing p true visited).rows =
      (standardLines p).map (padded (header p.columnNames).length "") ++
        (listing p false visited).rows := by
  simp only [listing, Table.pushAll_eq, Table.ofHeaders, List.nil_append, List.map_append, if_true,
    Bool.false_eq_true, if_false]

end Simplex

namespace Solver

theorem solveGeneral_eq {p : Problem K} (hp : p.validate = .ok ()) (s : Solver K) :
    s.solveGeneral p = present .general p (p.simplex (s.limits s.generalIterations)) := by
  rw [solveGeneral, hp]
  rfl

theorem solveGeneral_of_fault {p : Problem K} {e : Failure} (hp : p.validate = .error e)
    (s : Solver K) : s.solveGeneral p = .error e ∧ s.solveSimplex p = .error e := by
  rw [solveGeneral, solveSimplex, hp]
  exact ⟨rfl, rfl⟩

/-- One answer shows the standard form of the problem and then the listing of the other, which has
the same point and value. -/
structure ShownAfterForm (p : Problem K) (general simplex : Solution K) : Prop where
  status : general.status = simplex.status
  coordinates : general.coordinates = simplex.coordinates
  value : general.value = simplex.value
  headers : general.table.headers = simplex.table.headers
  rows : general.table.rows =
    (Simplex.standardLines p).map (padded general.table.headers.length "") ++ simplex.table.rows

theorem shownAfterForm_present {p : Problem K} {run : Run K} {a : Solution K}
    (ha : present .general p run = .ok a) :
    ∃ b, present .simplex p run = .ok b ∧ ShownAfterForm p a b := by
  obtain ⟨best, hbest, rfl⟩ := present_eq_ok.mp ha
  refine ⟨_, present_eq_ok.mpr ⟨best, hbest, rfl⟩, rfl, rfl, rfl, ?_, ?_⟩
  · exact (Simplex.listing_headers p _ _).trans (Simplex.listing_headers p _ _).symm
  · have hrows := Simplex.listing_rows p run.trace
    rw [← Simplex.listing_headers p true run.trace] at hrows
    exact hrows

/-- Where the limit of the general method is the smaller one and does not cut it short, the simplex
method does the same run. -/
theorem solveSimplex_of_general {s : Solver K} (hle : s.generalIterations ≤ s.maxIterations)
    {p : Problem K} (h : ∀ n, s.solveGeneral p ≠ .error (.iterationLimit n)) :
    (∃ e, s.solveGeneral p = .error e ∧ s.solveSimplex p = .error e) ∨
      ∃ a b, s.solveGeneral p = .ok a ∧ s.solveSimplex p = .ok b ∧ ShownAfterForm p a b := by
  cases hp : p.validate with
  | error e => exact .inl ⟨e, solveGeneral_of_fault hp s⟩
  | ok _ =>
    rw [solveGeneral_eq hp] at h ⊢
    have hrun : p.simplex (s.limits s.maxIterations) = p.simplex (s.limits s.generalIterations) :=
      Problem.simplex_of_le hle fun n hn => h n (present_eq_error.mpr hn)
    rw [solveSimplex_eq hp, hrun]
    cases ha : present .general p (p.simplex (s.limits s.generalIterations)) with
    | error e => exact .inl ⟨e, rfl, present_eq_error.mpr (present_eq_error.mp ha)⟩
    | ok a =>
      obtain ⟨b, hb, hshown⟩ := shownAfterForm_present ha
      exact .inr ⟨a, b, rfl, hb, hshown⟩

/-- A run that its limit does not cut short is the same, with its trace, under every larger limit,
and a run that a larger limit cuts short is cut short by its own. The pivots that count are those of
both phases together. -/
theorem limit_only_truncates (s : Solver K) (p : Problem K) {k l : ℕ} (hkl : k ≤ l) :
    ((∀ n, (p.simplex (s.limits k)).outcome ≠ .error (.iterationLimit n)) →
        p.simplex (s.limits l) = p.simplex (s.limits k)) ∧
      (∀ n, (p.simplex (s.limits l)).outcome = .error (.iterationLimit n) →
        (p.simplex (s.limits k)).outcome = .error (.iterationLimit k)) ∧
      (p.simplex (s.limits k)).Counts k p.phases ∧
      (s.generalIterations ≤ s.maxIterations →
        (∀ n, s.solveGeneral p ≠ .error (.iterationLimit n)) →
          (∃ e, s.solveGeneral p = .error e ∧ s.solveSimplex p = .error e) ∨
            ∃ a b, s.solveGeneral p = .ok a ∧ s.solveSimplex p = .ok b ∧
              ShownAfterForm p a b) := by
  refine ⟨?_, ?_, ?_, ?_⟩
  · exact Problem.simplex_of_le hkl
  · intro n hn
    exact Problem.simplex_limit_of_le hkl hn
  · exact p.simplex_counts (s.limits k)
  · intro hle h
    exact solveSimplex_of_general hle h

/-- Two pivots are too few for a run with two phases and three pivots. -/
theorem limit_only_truncates_mixedRows :
    (Problem.mixedRows.simplex (default.limits 2)).outcome = .error (.iterationLimit 2) ∧
      Problem.mixedRows.simplex (default.limits 100) =
        Problem.mixedRows.simplex (default.limits 3) ∧
      (Problem.mixedRows.simplex (default.limits 3)).trace.length = 3 + 2 ∧
      ∃ a b, default.solveGeneral Problem.mixedRows = .ok a ∧
        default.solveSimplex Problem.mixedRows = .ok b ∧
          ShownAfterForm Problem.mixedRows a b := by
  have hends {cap : ℕ} (hcap : (Problem.mixedRows.simplex (default.limits cap)).outcome =
      .ok ⟨[5 / 2, 3 / 2], 21 / 2⟩) (n : ℕ) :
      (Problem.mixedRows.simplex (default.limits cap)).outcome ≠ .error (.iterationLimit n) := by
    rw [hcap]
    simp
  have hgeneral (n : ℕ) : default.solveGeneral Problem.mixedRows ≠ .error (.iterationLimit n) := by
    rw [solveGeneral_eq (by decide), ne_eq, present_eq_error]
    exact hends (by decide +kernel) n
  obtain ⟨hsame, _, _, hmethods⟩ :=
    limit_only_truncates default Problem.mixedRows (k := 3) (l := 100) (by decide)
  refine ⟨by decide +kernel, hsame (hends (by decide +kernel)), by decide +kernel, ?_⟩
  rcases hmethods (by decide) hgeneral with ⟨e, he, _⟩ | hshown
  · rw [solveGeneral_eq (by decide), present_eq_error] at he
    have hok : (Problem.mixedRows.simplex (default.limits 20)).outcome =
        .ok ⟨[5 / 2, 3 / 2], 21 / 2⟩ := by decide +kernel
    cases he.symm.trans hok
  · exact hshown

end Solver
end LinProg
