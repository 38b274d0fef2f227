import LinProg.Proofs.Simplex.Bases

/-!
# Runs end or cycle

A run that the limit cuts short for being too small ends with a larger one. The only other reason is
that a phase comes back to a tableau, and then no limit is large enough. The value grows with every
pivot on a positive right-hand side, so a phase that comes back makes no such progress in between.
-/
namespace LinProg

/-- The right-hand side of the row that leaves at a tableau. -/
def Snapshot.leavingRhs? {K : Type} (s : Snapshot K) : Option K :=
  s.choice.bind fun c => c.leaving.bind fun row => s.rows[row]?.map Row.rhs

section
variable {K : Type} [Scalar K] {p : Problem K}

namespace Problem

theorem outcomeOf_of_exhausted {limits : Limits K} {leg : Leg K} (h : leg.ending = .exhausted) :
    p.outcomeOf limits leg = .error (.iterationLimit limits.pivots) := by
  rw [outcomeOf, h]

theorem outcomeOf_ne_limit {limits : Limits K} {leg : Leg K} (h : leg.ending ≠ .exhausted) (n : ℕ) :
    p.outcomeOf limits leg ≠ .error (.iterationLimit n) := by
  rw [outcomeOf]
  cases hending : leg.ending <;> simp_all

/-- The limit matters to a first phase only if the limit ended it. -/
theorem phaseOneFailure?_of_ends {leg : Leg K} (h : leg.ending ≠ .exhausted) (cap cap' : ℕ)
    (t f : K) : p.phaseOneFailure? ⟨cap, t, f⟩ leg = p.phaseOneFailure? ⟨cap', t, f⟩ leg := by
  rw [phaseOneFailure?, phaseOneFailure?]
  cases hending : leg.ending <;> simp_all

theorem phaseOneFailure?_ne_limit {leg : Leg K} {limits : Limits K} (h : leg.ending ≠ .exhausted)
    (n : ℕ) : p.phaseOneFailure? limits leg ≠ some (.iterationLimit n) := by
  rw [phaseOneFailure?]
  cases hending : leg.ending <;> simp_all

/-- A run whose first phase ended and found a feasible tableau goes on from there. -/
theorem simplex_of_first (hart : ¬ p.artificialColumns.isEmpty = true) {t f : K} {first : Leg K}
    (hends : first.ending ≠ .exhausted) (hnone : p.phaseOneFailure? ⟨0, t, f⟩ first = none)
    {cap : ℕ} (hfirst : (p.stageOne ⟨0, t, f⟩).run cap 0 p.initialRows = first) :
    p.simplex ⟨cap, t, f⟩ =
      let second := (p.stageTwo ⟨0, t, f⟩).run (cap - first.pivots) first.pivots
        (driveOut p.realColumns.length t first.rows)
      ⟨first.trace ++ second.trace, second.pivots, p.outcomeOf ⟨cap, t, f⟩ second⟩ := by
  have hstage : (p.stageOne ⟨cap, t, f⟩).run cap 0 p.initialRows = first := hfirst
  have haccepted : p.phaseOneFailure? ⟨cap, t, f⟩
      ((p.stageOne ⟨cap, t, f⟩).run cap 0 p.initialRows) = none := by
    rw [hstage, phaseOneFailure?_of_ends hends cap 0, hnone]
  rw [simplex_of_accepted hart haccepted]
  simp only [hstage]
  rfl

theorem simplex_of_cut (hart : ¬ p.artificialColumns.isEmpty = true) {t f : K} {cap : ℕ}
    (hcut : ((p.stageOne ⟨0, t, f⟩).run cap 0 p.initialRows).ending = .exhausted) :
    (p.simplex ⟨cap, t, f⟩).outcome = .error (.iterationLimit cap) ∧
      (p.simplex ⟨cap, t, f⟩).trace =
        ((p.stageOne ⟨0, t, f⟩).run cap 0 p.initialRows).trace := by
  have hfailure : p.phaseOneFailure? ⟨cap, t, f⟩
      ((p.stageOne ⟨cap, t, f⟩).run cap 0 p.initialRows) = some (.iterationLimit cap) := by
    have hstage : ((p.stageOne ⟨cap, t, f⟩).run cap 0 p.initialRows).ending = .exhausted := hcut
    rw [phaseOneFailure?, hstage]
  rw [simplex_of_failure hart hfailure]
  exact ⟨rfl, rfl⟩

end Problem
end

variable {K : Type} [Field K] [LinearOrder K]

/-- One phase is at the same tableau at two points of the trace. Between them, every row that leaves
has the right-hand side zero, or one has a negative one. -/
def CyclesBetween (visited : List (Snapshot K)) (i j : ℕ) : Prop :=
  i < j ∧
    (∃ a b, visited[i]? = some a ∧ visited[j]? = some b ∧ a.phase = b.phase ∧ a.rows = b.rows) ∧
    ((∀ k, i ≤ k → k < j → visited[k]?.bind Snapshot.leavingRhs? = some 0) ∨
      ∃ k v, i ≤ k ∧ k < j ∧ visited[k]?.bind Snapshot.leavingRhs? = some v ∧ v < 0)

/-- A trace in which a phase comes back to a tableau. -/
def Cycles (visited : List (Snapshot K)) : Prop := ∃ i j, CyclesBetween visited i j

theorem Cycles.append_left {visited : List (Snapshot K)} (h : Cycles visited)
    (before : List (Snapshot K)) : Cycles (before ++ visited) := by
  have hget (k : ℕ) : (before ++ visited)[before.length + k]? = visited[k]? := by
    rw [List.getElem?_append_right (Nat.le_add_right _ _), Nat.add_sub_cancel_left]
  obtain ⟨i, j, hij, ⟨a, b, ha, hb, hphase, hrows⟩, hbetween⟩ := h
  refine ⟨before.length + i, before.length + j, Nat.add_lt_add_left hij _,
    ⟨a, b, (hget i).trans ha, (hget j).trans hb, hphase, hrows⟩, ?_⟩
  rcases hbetween with hzero | ⟨k, v, hik, hkj, hv, hneg⟩
  · left
    intro k hik hkj
    obtain ⟨l, rfl⟩ := Nat.exists_eq_add_of_le (le_of_add_le_left hik)
    rw [hget]
    exact hzero l (by omega) (by omega)
  · right
    exact ⟨before.length + k, v, by omega, by omega, by rwa [hget], hneg⟩

variable [IsStrictOrderedRing K]

/-- A sum of positively weighted numbers that comes back has none but zeros, or a negative one. -/
theorem zero_or_neg_of_returns {v d w : ℕ → K} (hw : ∀ k, 0 < w k)
    (hv : ∀ k, v (k + 1) = v k + d k * w k) {i j : ℕ} (hreturns : v i = v j) :
    (∀ k, i ≤ k → k < j → d k = 0) ∨ ∃ k, i ≤ k ∧ k < j ∧ d k < 0 := by
  by_cases hneg : ∃ k, i ≤ k ∧ k < j ∧ d k < 0
  · exact .inr hneg
  have hnonneg (k : ℕ) (hik : i ≤ k) (hkj : k < j) : 0 ≤ d k :=
    not_lt.mp fun hlt => hneg ⟨k, hik, hkj, hlt⟩
  have hgrows (k l : ℕ) (hik : i ≤ k) (hkl : k ≤ l) (hlj : l ≤ j) : v k ≤ v l := by
    induction l, hkl using Nat.le_induction with
    | base => exact le_rfl
    | succ l hkl ih =>
      have hstep := mul_nonneg (hnonneg l (hik.trans hkl) hlj) (hw l).le
      have hbefore := ih (Nat.le_of_succ_le hlj)
      rw [hv]
      linarith
  left
  intro k hik hkj
  have hfirst := hgrows i k le_rfl hik hkj.le
  have hlast := hgrows (k + 1) j (Nat.le_succ_of_le hik) hkj le_rfl
  rw [hv, ← hreturns] at hlast
  have hstep : d k * w k ≤ 0 := by linarith
  exact le_antisymm (nonpos_of_mul_nonpos_left hstep (hw k)) (hnonneg k hik hkj)

namespace Problem.IsTableau
variable {p : Problem K} {rows : List (Row K)}

theorem cycles_of_returns (h : p.IsTableau rows) {s : Stage K} (ht : 0 ≤ s.tolerance)
    (hcosts : s.costs.length ≤ p.columns.length) {i j : ℕ} {again : List (Row K)} (hij : i < j)
    (hi : s.after rows i = some again) (hj : s.after rows j = some again) {left : ℕ}
    (hleft : j < left) (made : ℕ) : CyclesBetween (s.run left made rows).trace i j := by
  have hstep (k : ℕ) : ∃ here column row, s.after rows k = some here ∧
      s.entering? here = some column ∧ (s.choose here column).leaving = some row ∧
        s.after rows (k + 1) = some (LinProg.pivot here row column) := by
    obtain ⟨later, hlater⟩ := Stage.exists_after_of_returns hij hi hj (k + 1)
    obtain ⟨here, hhere, hnext⟩ := Option.bind_eq_some_iff.mp hlater
    obtain ⟨column, row, hcolumn, hleaving, heq⟩ := Stage.next?_eq_some hnext
    exact ⟨here, column, row, hhere, hcolumn, hleaving, heq ▸ hlater⟩
  choose here column row hafter hcolumn hleaving hnext using hstep
  have hrow (k : ℕ) : row k < (here k).length := (Stage.leaving_eq_some (hleaving k)).1
  have hentry (k : ℕ) : 0 < (getElem (here k) (row k) (hrow k)).entry (column k) :=
    ht.trans_lt (Stage.leaving_eq_some (hleaving k)).2.1
  have hreduced (k : ℕ) : 0 < reducedCost s.costs (here k) (column k) :=
    ht.trans_lt (Stage.entering?_eq_some (hcolumn k)).2.2
  have hvalue (k : ℕ) : basicValue s.costs (here (k + 1)) = basicValue s.costs (here k) +
      (getElem (here k) (row k) (hrow k)).rhs *
        (reducedCost s.costs (here k) (column k) /
          (getElem (here k) (row k) (hrow k)).entry (column k)) := by
    have htableau := (h.after ht hcosts (hafter k)).1
    have hlt := (Stage.entering?_eq_some (hcolumn k)).2.1.trans_le hcosts
    rw [Option.some.inj ((hafter (k + 1)).symm.trans (hnext k)),
      htableau.canonical.basicValue_pivot s.costs (hrow k) hlt (hentry k).ne']
    ring
  have hsame : here i = here j :=
    Option.some.inj ((hafter i).symm.trans (hi.trans (hj.symm.trans (hafter j))))
  have htrace (k : ℕ) (hk : k < left) :=
    Stage.run_trace_getElem? made (hafter k) (hcolumn k) hk
  have hrhs (k : ℕ) (hk : k < left) :
      (s.run left made rows).trace[k]?.bind Snapshot.leavingRhs? =
        some (getElem (here k) (row k) (hrow k)).rhs := by
    rw [htrace k hk]
    simp [Snapshot.leavingRhs?, Stage.snapshot, hleaving k, hrow k]
  refine ⟨hij, ⟨_, _, htrace i (hij.trans hleft), htrace j hleft, rfl, hsame⟩, ?_⟩
  rcases zero_or_neg_of_returns (v := fun k => basicValue s.costs (here k))
    (fun k => div_pos (hreduced k) (hentry k)) hvalue (congrArg (basicValue s.costs) hsame)
    with hzero | ⟨k, hik, hkj, hneg⟩
  · left
    intro k hik hkj
    rw [hrhs k (hkj.trans hleft), hzero k hik hkj]
  · right
    exact ⟨k, _, hik, hkj, hrhs k (hkj.trans hleft), hneg⟩

/-- A phase ends within as many pivots as there are bases, or it never does. -/
theorem ends_or_cycles (h : p.IsTableau rows) {s : Stage K} (ht : 0 ≤ s.tolerance)
    (hcosts : s.costs.length ≤ p.columns.length) {bases : ℕ}
    (hbases : bases = p.columns.length ^ rows.length) (made : ℕ) :
    (s.run bases made rows).ending ≠ .exhausted ∨
      (∀ left, (s.run left made rows).ending = .exhausted) ∧
        ∀ left > bases, Cycles (s.run left made rows).trace := by
  rcases h.ends_or_returns ht hcosts hbases made with hends | ⟨i, j, here, hij, hjb, hi, hj⟩
  · exact .inl hends
  · right
    constructor
    · intro left
      exact Stage.exhausted_of_returns hij hi hj left made
    · intro left hleft
      exact ⟨i, j, h.cycles_of_returns ht hcosts hij hi hj (hjb.trans_lt hleft) made⟩

end Problem.IsTableau

namespace Problem
variable {p : Problem K}

/-- The number of ways to choose a basic column for every row. -/
def bases (p : Problem K) : ℕ := p.columns.length ^ p.constraints.length

/-- What can be said of a run under every limit: it ends under all that are large enough, or it
cycles and every limit cuts it short. -/
def EndsOrCycles (p : Problem K) (t f : K) : Prop :=
  (∀ cap ≥ 2 * (p.bases + 1), ∀ n,
      (p.simplex ⟨cap, t, f⟩).outcome ≠ .error (.iterationLimit n)) ∨
    (∀ cap, (p.simplex ⟨cap, t, f⟩).outcome = .error (.iterationLimit cap)) ∧
      Cycles (p.simplex ⟨2 * (p.bases + 1), t, f⟩).trace

theorem endsOrCycles_of_isEmpty (hart : p.artificialColumns.isEmpty = true) {t : K} (ht : 0 ≤ t)
    (f : K) : p.EndsOrCycles t f := by
  have hbases : p.bases = p.columns.length ^ p.initialRows.length := by simp [bases]
  rcases p.isTableau_initialRows.ends_or_cycles (s := p.stageTwo ⟨0, t, f⟩) ht
    p.length_objectiveCosts.le hbases 0 with hends | ⟨hlimit, hcycles⟩
  · left
    intro cap hcap n
    have hle : p.bases ≤ cap := by omega
    rw [simplex_of_isEmpty hart]
    apply outcomeOf_ne_limit
    rw [← Stage.run_of_le hends hle] at hends
    exact hends
  · right
    constructor
    · intro cap
      rw [simplex_of_isEmpty hart]
      exact outcomeOf_of_exhausted (hlimit cap)
    · rw [simplex_of_isEmpty hart]
      exact hcycles (2 * (p.bases + 1)) (by omega)

omit [IsStrictOrderedRing K] in
/-- The tableau between the phases has a row for each constraint. -/
theorem length_driveOut_run (t : K) (real : ℕ) (s : Stage K) (left made : ℕ) :
    (driveOut real t (s.run left made p.initialRows).rows).length = p.constraints.length := by
  have hrun : (s.run left made p.initialRows).rows.length = p.initialRows.length :=
    Stage.run_induction (P := fun rows => rows.length = p.initialRows.length) s
      (fun rows column row h _ _ => (length_pivot rows row column).trans h) left made rfl
  rw [length_driveOut, hrun, length_initialRows]

/-- The second phase after a first phase that ended and found a feasible tableau. -/
theorem endsOrCycles_of_accepted (hart : ¬ p.artificialColumns.isEmpty = true) {t f : K}
    (ht : 0 ≤ t) {first : Leg K}
    (hfirst : (p.stageOne ⟨0, t, f⟩).run p.bases 0 p.initialRows = first)
    (hends : first.ending ≠ .exhausted) (hnone : p.phaseOneFailure? ⟨0, t, f⟩ first = none) :
    p.EndsOrCycles t f := by
  have htableau : p.IsTableau (driveOut p.realColumns.length t first.rows) := by
    rw [← hfirst]
    exact (p.isTableau_initialRows.run (s := p.stageOne ⟨0, t, f⟩) ht
      p.length_artificialCosts.le _ _).driveOut ht
  have hbases : p.bases =
      p.columns.length ^ (driveOut p.realColumns.length t first.rows).length := by
    rw [← hfirst, length_driveOut_run, bases]
  have hpivots : first.pivots ≤ p.bases := by
    have h := Stage.pivots_le (p.stageOne ⟨0, t, f⟩) p.bases 0 p.initialRows
    rwa [hfirst, Nat.zero_add] at h
  have hends' := hfirst ▸ hends
  have hlarge (cap : ℕ) (h : p.bases ≤ cap) :
      (p.stageOne ⟨0, t, f⟩).run cap 0 p.initialRows = first :=
    (Stage.run_of_le hends' h).trans hfirst
  rcases htableau.ends_or_cycles (s := p.stageTwo ⟨0, t, f⟩) ht p.length_objectiveCosts.le hbases
    first.pivots with hsecond | ⟨hlimit, hcycles⟩
  · left
    intro cap hcap n
    have hle : p.bases ≤ cap - first.pivots := by omega
    rw [simplex_of_first hart hends hnone (hlarge cap (by omega)), Stage.run_of_le hsecond hle]
    exact outcomeOf_ne_limit hsecond n
  · right
    constructor
    · -- under every limit the first phase is cut short, or it is the one that ended
      intro cap
      by_cases hcut : ((p.stageOne ⟨0, t, f⟩).run cap 0 p.initialRows).ending = .exhausted
      · exact (simplex_of_cut hart hcut).1
      · rw [simplex_of_first hart hends hnone ((Stage.run_eq_run hcut hends').trans hfirst)]
        exact outcomeOf_of_exhausted (hlimit _)
    · rw [simplex_of_first hart hends hnone (hlarge _ (by omega))]
      exact (hcycles _ (by omega)).append_left first.trace

omit [IsStrictOrderedRing K] in
theorem endsOrCycles_of_rejected (hart : ¬ p.artificialColumns.isEmpty = true) {t f : K}
    (hends : ((p.stageOne ⟨0, t, f⟩).run p.bases 0 p.initialRows).ending ≠ .exhausted)
    {e : Failure} (he : p.phaseOneFailure? ⟨0, t, f⟩
      ((p.stageOne ⟨0, t, f⟩).run p.bases 0 p.initialRows) = some e) : p.EndsOrCycles t f := by
  left
  intro cap hcap n
  have hle : p.bases ≤ cap := by omega
  have hrejected : p.phaseOneFailure? ⟨cap, t, f⟩
      ((p.stageOne ⟨cap, t, f⟩).run cap 0 p.initialRows) = some e := by
    have hstage : (p.stageOne ⟨cap, t, f⟩).run cap 0 p.initialRows =
        (p.stageOne ⟨0, t, f⟩).run p.bases 0 p.initialRows := Stage.run_of_le hends hle
    rw [hstage, phaseOneFailure?_of_ends hends cap 0, he]
  rw [simplex_of_failure hart hrejected]
  intro heq
  apply phaseOneFailure?_ne_limit hends n
  rw [he, Except.error.inj heq]

theorem endsOrCycles (p : Problem K) {t : K} (ht : 0 ≤ t) (f : K) : p.EndsOrCycles t f := by
  by_cases hart : p.artificialColumns.isEmpty = true
  · exact endsOrCycles_of_isEmpty hart ht f
  have hbases : p.bases = p.columns.length ^ p.initialRows.length := by simp [bases]
  rcases p.isTableau_initialRows.ends_or_cycles (s := p.stageOne ⟨0, t, f⟩) ht
    p.length_artificialCosts.le hbases 0 with hends | ⟨hlimit, hcycles⟩
  · cases he : p.phaseOneFailure? ⟨0, t, f⟩
      ((p.stageOne ⟨0, t, f⟩).run p.bases 0 p.initialRows) with
    | none => exact endsOrCycles_of_accepted hart ht rfl hends he
    | some e => exact endsOrCycles_of_rejected hart hends he
  · right
    constructor
    · intro cap
      exact (simplex_of_cut hart (hlimit cap)).1
    · rw [(simplex_of_cut hart (hlimit _)).2]
      exact hcycles (2 * (p.bases + 1)) (by omega)

end Problem
end LinProg
