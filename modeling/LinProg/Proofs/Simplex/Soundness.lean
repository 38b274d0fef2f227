import LinProg.Proofs.Scalar.Rational
import LinProg.Proofs.Simplex.Pricing

/-!
# The outcomes of the simplex method

Without a tolerance every outcome of a run says the truth of its problem, for any number of
constraints of any kind and any limit on the pivots. That a run ends within its limit is not
claimed.
-/
namespace LinProg
open Finset
variable {K : Type} [Field K] [LinearOrder K] [IsStrictOrderedRing K]

namespace Problem

/-- What an outcome of a run with a limit on the pivots says of the problem is so. -/
def Sound (p : Problem K) (limit : ℕ) : Except Failure (Optimum K) → Prop
  | .ok best => p.IsOptimum best.coordinates best.value
  | .error .infeasible => ∀ x, ¬ p.IsFeasible x
  | .error .unbounded => p.IsUnlimited
  | .error e => e = .iterationLimit limit

/-- A tableau from which the second phase can start: its basic solution satisfies the problem,
and no artificial column can become positive again. -/
structure IsReady (p : Problem K) (rows : List (Row K)) : Prop extends p.IsTableau rows where
  rhs_nonneg : ∀ r ∈ rows, 0 ≤ r.rhs
  settled : Settled p.realColumns.length rows.length rows

variable {p : Problem K} {rows : List (Row K)}

namespace IsReady

/-- A pivot of the second phase leads from such a tableau to another one. -/
theorem choose (h : p.IsReady rows) {limit column row : ℕ}
    (hcolumn : (p.stageTwo ⟨limit, 0, 0⟩).entering? rows = some column)
    (hleaving : ((p.stageTwo ⟨limit, 0, 0⟩).choose rows column).leaving = some row) :
    p.IsReady (pivot rows row column) where
  toIsTableau := h.toIsTableau.choose le_rfl p.length_objectiveCosts.le hcolumn hleaving
  rhs_nonneg := Stage.choose_rhs_nonneg rfl h.rhs_nonneg hleaving
  settled := h.settled.choose le_rfl hcolumn hleaving

theorem run (h : p.IsReady rows) (limit left made : ℕ) :
    p.IsReady ((p.stageTwo ⟨limit, 0, 0⟩).run left made rows).rows :=
  Stage.run_induction _ (fun _ _ _ h => h.choose) left made h

theorem isFeasible (h : p.IsReady rows) (hp : p.validate = .ok ()) :
    p.IsFeasible (p.pointOf (basicSolution rows)) :=
  isFeasible_pointOf hp h.basicSolution_solves (basicSolution_nonneg h.rhs_nonneg)
    fun _ hc => h.settled.basicSolution_eq_zero (length_realColumns_le_idxOf hc)

/-- Where no column pays, the basic solution is optimal. -/
theorem isOptimum (h : p.IsReady rows) (hp : p.validate = .ok ())
    (hcosts : ∀ j < p.realColumns.length, reducedCost p.objectiveCosts rows j ≤ 0) :
    p.IsOptimum (p.optimumAt rows).coordinates (p.optimumAt rows).value := by
  refine ⟨?_, ?_, fun x hx => ?_⟩
  · rw [h.coordinates_optimumAt]
    exact h.isFeasible hp
  · exact h.value_eq_objectiveAt
  · have hle := h.totalCost_le hcosts (extend_solves hp hx) (extend_nonneg hx)
      fun j _ hj => extend_artificial x hj
    rw [totalCost_objectiveCosts, pointOf_extend ((isFeasible_iff p x).mp hx).1] at hle
    rw [value_optimumAt, ← Bool.not_eq_true, Sense.better_iff, Sense.signed_signed]
    exact hle.not_gt

/-- A column that pays and that no row bounds leads beyond every value of the objective. -/
theorem isUnlimited (h : p.IsReady rows) (hp : p.validate = .ok ()) {column : ℕ}
    (hcolumn : column < p.realColumns.length)
    (hcost : 0 < reducedCost p.objectiveCosts rows column)
    (hentry : ∀ r ∈ rows, r.entry column ≤ 0) : p.IsUnlimited := by
  have hwidth := hcolumn.trans_le p.length_realColumns_le
  intro bound
  obtain ⟨t, ht, hgt⟩ := h.exists_totalCost_gt hwidth hcost (p.objective.sense.signed bound)
  refine ⟨_, isFeasible_pointOf hp (h.add_edge_solves hwidth t)
    (add_edge_nonneg h.rhs_nonneg hentry ht) fun c hc => ?_, ?_⟩
  · have hreal := length_realColumns_le_idxOf hc
    rw [columnValue, h.settled.basicSolution_eq_zero hreal, h.settled.edge_eq_zero hcolumn hreal,
      mul_zero, add_zero]
  · rw [totalCost_objectiveCosts] at hgt
    rw [Sense.better_iff]
    exact hgt

theorem outcomeOf_sound (h : p.IsReady rows) (hp : p.validate = .ok ()) (limit left made : ℕ) :
    p.Sound limit
      (p.outcomeOf ⟨limit, 0, 0⟩ ((p.stageTwo ⟨limit, 0, 0⟩).run left made rows)) := by
  have hend := h.run limit left made
  rw [outcomeOf]
  cases hending : ((p.stageTwo ⟨limit, 0, 0⟩).run left made rows).ending with
  | optimal =>
    have hnone := Stage.entering?_of_optimal _ _ _ _ hending
    refine hend.isOptimum hp fun j hj => Stage.entering?_eq_none hnone hj ?_
    exact (hj.trans_le p.length_realColumns_le).trans_eq p.length_objectiveCosts.symm
  | unbounded =>
    obtain ⟨column, hcolumn, hnone⟩ := Stage.leaving_of_unbounded _ _ _ _ hending
    obtain ⟨hlt, _, hcost⟩ := Stage.entering?_eq_some hcolumn
    exact hend.isUnlimited hp hlt hcost (Stage.leaving_eq_none hnone)
  | exhausted => rfl

end IsReady

/-- Without artificial columns the first tableau is ready. -/
theorem isReady_initialRows (h : p.artificialColumns.isEmpty = true) :
    p.IsReady p.initialRows := by
  have hb : ∀ r ∈ p.initialRows, r.basic < p.realColumns.length := by
    intro r hr
    have hlt := p.initialRows_canonical.basic_lt r hr
    rwa [columns, List.isEmpty_iff.mp h, List.append_nil] at hlt
  exact ⟨p.isTableau_initialRows, p.initialRows_rhs_nonneg,
    fun r hr hreal => absurd (hb r hr) hreal.not_gt,
    fun i hi _ hreal => absurd (hb _ (List.getElem_mem hi)) hreal.not_gt⟩

/-- The artificial columns of a feasible tableau are all zero if their sum is not positive. -/
theorem settled_of_basicValue (h : p.IsTableau rows) (hrhs : ∀ r ∈ rows, 0 ≤ r.rhs)
    (hvalue : -basicValue p.artificialCosts rows ≤ 0) :
    Settled p.realColumns.length 0 rows := by
  rw [basicValue_artificialCosts h.canonical.basic_lt, neg_neg] at hvalue
  have hterm (i : Fin rows.length) :
      0 ≤ if p.realColumns.length ≤ rows[i].basic then rows[i].rhs else 0 := by
    split_ifs
    · exact hrhs _ (List.getElem_mem i.isLt)
    · exact le_rfl
  have hsum := (sum_eq_zero_iff_of_nonneg fun i _ => hterm i).mp
    (hvalue.antisymm (sum_nonneg fun i _ => hterm i))
  refine ⟨fun r hr hb => ?_, fun i _ hlt => absurd hlt (Nat.not_lt_zero i)⟩
  obtain ⟨i, hi, rfl⟩ := List.getElem_of_mem hr
  simpa [hb] using hsum ⟨i, hi⟩ (mem_univ _)

theorem totalCost_artificialCosts_nonpos {y : ℕ → K} (hy : ∀ j, 0 ≤ y j) :
    totalCost p.columns.length p.artificialCosts y ≤ 0 := by
  rw [totalCost_artificialCosts, neg_nonpos]
  refine sum_nonneg fun j _ => ?_
  split_ifs
  · exact hy j
  · exact le_rfl

/-- The sum of the artificial columns is bounded, so the first phase never runs off. -/
theorem stageOne_not_unbounded (p : Problem K) (limit left made : ℕ) :
    ((p.stageOne ⟨limit, 0, 0⟩).run left made p.initialRows).ending ≠ .unbounded := by
  intro hending
  have h := p.isTableau_initialRows.run (s := p.stageOne ⟨limit, 0, 0⟩) le_rfl
    p.length_artificialCosts.le left made
  have hrhs := Stage.run_rhs_nonneg (s := p.stageOne ⟨limit, 0, 0⟩) rfl left made
    p.initialRows_rhs_nonneg
  obtain ⟨column, hcolumn, hnone⟩ := Stage.leaving_of_unbounded _ _ _ _ hending
  obtain ⟨hlt, _, hcost⟩ := Stage.entering?_eq_some hcolumn
  obtain ⟨t, ht, hgt⟩ := h.exists_totalCost_gt hlt hcost 0
  exact (totalCost_artificialCosts_nonpos
    (add_edge_nonneg hrhs (Stage.leaving_eq_none hnone) ht)).not_gt hgt

/-- A point that satisfies the problem would bring the artificial columns to zero. -/
theorem not_isFeasible_of_basicValue (hp : p.validate = .ok ()) (h : p.IsTableau rows)
    (hcosts : ∀ j < p.columns.length, reducedCost p.artificialCosts rows j ≤ 0)
    (hvalue : 0 < -basicValue p.artificialCosts rows) (x : List K) : ¬ p.IsFeasible x := by
  intro hx
  have hle := h.totalCost_le hcosts (extend_solves hp hx) (extend_nonneg hx)
    fun j hj hge => absurd hj hge.not_gt
  have hzero : totalCost p.columns.length p.artificialCosts (p.extend x) = 0 := by
    rw [totalCost_artificialCosts, neg_eq_zero]
    refine sum_eq_zero fun j _ => ?_
    split_ifs with hj
    · exact extend_artificial x hj
    · rfl
  rw [hzero] at hle
  exact hle.not_gt (neg_pos.mp hvalue)

/-- A first phase that is accepted leaves artificial columns at zero. -/
theorem settled_stageOne (p : Problem K) (limit left made : ℕ) (hvalue : -basicValue
      p.artificialCosts ((p.stageOne ⟨limit, 0, 0⟩).run left made p.initialRows).rows ≤ 0) :
    let first := ((p.stageOne ⟨limit, 0, 0⟩).run left made p.initialRows).rows
    p.IsTableau first ∧ Settled p.realColumns.length 0 first ∧ ∀ r ∈ first, 0 ≤ r.rhs := by
  have h := p.isTableau_initialRows.run (s := p.stageOne ⟨limit, 0, 0⟩) le_rfl
    p.length_artificialCosts.le left made
  have hrhs := Stage.run_rhs_nonneg (s := p.stageOne ⟨limit, 0, 0⟩) rfl left made
    p.initialRows_rhs_nonneg
  exact ⟨h, settled_of_basicValue h hrhs hvalue, hrhs⟩

/-- Such a phase leads to a tableau that is ready for the second. -/
theorem isReady_driveOut (p : Problem K) (limit left made : ℕ) (hvalue : -basicValue
      p.artificialCosts ((p.stageOne ⟨limit, 0, 0⟩).run left made p.initialRows).rows ≤ 0) :
    p.IsReady (driveOut p.realColumns.length 0
      ((p.stageOne ⟨limit, 0, 0⟩).run left made p.initialRows).rows) := by
  obtain ⟨h, hsettled, hrhs⟩ := p.settled_stageOne limit left made hvalue
  obtain ⟨hdriven, hpos, _⟩ := hsettled.driveOut hrhs
  exact ⟨h.driveOut le_rfl, hpos, hdriven⟩

/-- The first phase rejects a problem only if no point satisfies it. -/
theorem phaseOneFailure?_sound (hp : p.validate = .ok ()) (limit left made : ℕ) {e : Failure}
    (he : p.phaseOneFailure? ⟨limit, 0, 0⟩
      ((p.stageOne ⟨limit, 0, 0⟩).run left made p.initialRows) = some e) :
    p.Sound limit (.error e) := by
  rw [phaseOneFailure?] at he
  cases hending : ((p.stageOne ⟨limit, 0, 0⟩).run left made p.initialRows).ending with
  | unbounded => exact absurd hending (p.stageOne_not_unbounded limit left made)
  | exhausted =>
    rw [hending, Option.some.injEq] at he
    rw [← he]
    rfl
  | optimal =>
    have h := p.isTableau_initialRows.run (s := p.stageOne ⟨limit, 0, 0⟩) le_rfl
      p.length_artificialCosts.le left made
    have hnone := Stage.entering?_of_optimal _ _ _ _ hending
    rw [hending, Option.ite_none_right_eq_some, Option.some.injEq] at he
    rw [← he.2]
    exact not_isFeasible_of_basicValue hp h (fun j hj => Stage.entering?_eq_none hnone hj
      (hj.trans_eq p.length_artificialCosts.symm)) he.1

/-- Whatever a run without a tolerance answers is so. -/
theorem sound_simplex (hp : p.validate = .ok ()) (limit : ℕ) :
    p.Sound limit (p.simplex ⟨limit, 0, 0⟩).outcome := by
  by_cases hart : p.artificialColumns.isEmpty = true
  · rw [simplex_of_isEmpty hart]
    exact (isReady_initialRows hart).outcomeOf_sound hp limit limit 0
  · cases he : p.phaseOneFailure? ⟨limit, 0, 0⟩
      ((p.stageOne ⟨limit, 0, 0⟩).run limit 0 p.initialRows) with
    | some e =>
      rw [simplex_of_failure hart he]
      exact phaseOneFailure?_sound hp limit _ _ he
    | none =>
      rw [simplex_of_accepted hart he]
      exact (p.isReady_driveOut limit _ _ (phaseOneFailure?_eq_none he).2).outcomeOf_sound hp
        limit _ _

/-- An optimum is one, a problem called infeasible or unbounded is so, and otherwise the limit is
to blame. -/
theorem simplex_correct (hp : p.validate = .ok ()) (limit : ℕ) :
    (∀ best, (p.simplex ⟨limit, 0, 0⟩).outcome = .ok best →
      p.IsOptimum best.coordinates best.value) ∧
    ((p.simplex ⟨limit, 0, 0⟩).outcome = .error .infeasible → ∀ x, ¬ p.IsFeasible x) ∧
    ((p.simplex ⟨limit, 0, 0⟩).outcome = .error .unbounded → p.IsUnlimited) ∧
    ∀ e, (p.simplex ⟨limit, 0, 0⟩).outcome = .error e →
      e = .infeasible ∨ e = .unbounded ∨ e = .iterationLimit limit := by
  have h := sound_simplex hp limit
  refine ⟨fun best hbest => ?_, fun hbad => ?_, fun hfree => ?_, fun e he => ?_⟩
  · rwa [hbest] at h
  · rwa [hbad] at h
  · rwa [hfree] at h
  · rw [he] at h
    cases e with
    | infeasible => exact .inl rfl
    | unbounded => exact .inr (.inl rfl)
    | _ => exact .inr (.inr h)

/-- Rows of every kind: one with a negative right-hand side, and an equation stated twice. -/
def mixedRows : Problem ℚ where
  names := ["x1", "x2"]
  objective := ⟨[3, 2], .max⟩
  constraints :=
    [⟨"c1", [1, 1], .le, 4⟩, ⟨"c2", [1, 3], .ge, 3⟩, ⟨"c3", [-1, 1], .eq, -1⟩,
      ⟨"c4", [2, -2], .eq, 2⟩]
  toggles := .none

theorem simplex_correct_mixedRows : mixedRows.validate = .ok () ∧
    (mixedRows.simplex ⟨10, 0, 0⟩).outcome = .ok ⟨[5 / 2, 3 / 2], 21 / 2⟩ ∧
      mixedRows.IsOptimum [5 / 2, 3 / 2] (21 / 2) :=
  ⟨by decide, by decide +kernel, (simplex_correct (p := mixedRows) (by decide) 10).1
    ⟨[5 / 2, 3 / 2], 21 / 2⟩ (by decide +kernel)⟩

end Problem
end LinProg
