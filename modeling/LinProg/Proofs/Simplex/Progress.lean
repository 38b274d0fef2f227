import LinProg.Proofs.Simplex.Reached
import LinProg.Proofs.Solver.Termination

/-!
# The value never gets worse

Without a tolerance every tableau that a run records has a basic solution without negative values. A
pivot raises the value by the ratio of its row times the reduced cost of its column, so the value of
a phase never falls, and it stands still only as long as all ratios are zero. It has to stand still
between two tableaus of one basis, for the basis leaves no choice for the value.
-/
namespace LinProg

/-- The ratio of the row that leaves at a tableau. -/
def Snapshot.leastRatio? {K : Type} (t : Snapshot K) : Option K :=
  t.choice.bind fun c => c.leaving.bind fun row => c.ratios[row]?.join

/-- The columns for which the rows of a tableau are solved. -/
def Snapshot.basis {K : Type} (t : Snapshot K) : Finset ℕ := (t.rows.map Row.basic).toFinset

namespace Problem
variable {K : Type} [Field K] [LinearOrder K]

/-- Tableaus of one basis have the same value. -/
theorem IsTableau.basicValue_eq {p : Problem K} {rows others : List (Row K)} (h : p.IsTableau rows)
    (h' : p.IsTableau others)
    (hbasis : (rows.map Row.basic).toFinset = (others.map Row.basic).toFinset) (costs : List K) :
    basicValue costs rows = basicValue costs others := by
  have hsolves : Solves p.columns.length rows (basicSolution others) :=
    (h.solves_iff _).mpr h'.basicSolution_solves
  -- a column that is not basic has no value, and one that is does not pay
  have hterm (j : ℕ) : reducedCost costs rows j * basicSolution others j = 0 := by
    by_cases hj : j ∈ (rows.map Row.basic).toFinset
    · obtain ⟨r, hr, rfl⟩ := List.mem_map.mp (List.mem_toFinset.mp hj)
      obtain ⟨k, hk, rfl⟩ := List.getElem_of_mem hr
      rw [h.canonical.reducedCost_basic costs hk, zero_mul]
    · rw [hbasis, List.mem_toFinset, List.mem_map] at hj
      rw [basicSolution_of_not_basic fun r hr hb => hj ⟨r, hr, hb⟩, mul_zero]
  rw [← h'.canonical.totalCost_basicSolution costs, Canonical.totalCost_eq costs hsolves,
    Finset.sum_eq_zero fun j _ => hterm j, add_zero]

/-- A tableau whose basic solution has no negative values. -/
structure IsBasicFeasible (p : Problem K) (rows : List (Row K)) : Prop extends
    p.IsTableau rows where
  rhs_nonneg : ∀ r ∈ rows, 0 ≤ r.rhs

variable [IsStrictOrderedRing K] {p : Problem K} {rows : List (Row K)}

namespace IsBasicFeasible
variable {s : Stage K}

/-- A pivot of a phase raises the value by its ratio times a positive number. -/
theorem next (h : p.IsBasicFeasible rows) (ht : s.tolerance = 0)
    (hcosts : s.costs.length ≤ p.columns.length) {later : List (Row K)}
    (hnext : s.next? rows = some later) (made : ℕ) : p.IsBasicFeasible later ∧ ∃ q w,
      (s.visit made rows).leastRatio? = some q ∧ 0 ≤ q ∧ 0 < w ∧
        basicValue s.costs later = basicValue s.costs rows + q * w := by
  obtain ⟨column, row, hcolumn, hleaving, rfl⟩ := Stage.next?_eq_some hnext
  obtain ⟨_, hlen, hreduced⟩ := Stage.entering?_eq_some hcolumn
  obtain ⟨hrow, hentry, _⟩ := Stage.leaving_eq_some hleaving
  rw [ht] at hreduced
  have hpositive : 0 < rows[row].entry column := ht ▸ hentry
  refine ⟨⟨h.choose ht.ge hcosts hcolumn hleaving,
    Stage.choose_rhs_nonneg ht h.rhs_nonneg hleaving⟩, rows[row].rhs / rows[row].entry column,
    reducedCost s.costs rows column, ?_,
    div_nonneg (h.rhs_nonneg _ (List.getElem_mem hrow)) hpositive.le, hreduced,
    h.canonical.basicValue_pivot s.costs hrow (hlen.trans_le hcosts) hpositive.ne'⟩
  have hratio : (s.choose rows column).ratios[row]? =
      some (some (rows[row].rhs / rows[row].entry column)) := by
    simp [Stage.choose, hrow, Stage.ratio?_exact, hentry]
  simp [Snapshot.leastRatio?, Stage.visit, Stage.snapshot, hcolumn, hleaving, hratio]

/-- The value of a phase never falls. -/
theorem after (h : p.IsBasicFeasible rows) (ht : s.tolerance = 0)
    (hcosts : s.costs.length ≤ p.columns.length) {k : ℕ} {here : List (Row K)}
    (hk : s.after rows k = some here) :
    p.IsBasicFeasible here ∧ basicValue s.costs rows ≤ basicValue s.costs here := by
  induction k generalizing here with
  | zero =>
    obtain rfl := Option.some.inj hk
    exact ⟨h, le_rfl⟩
  | succ k ih =>
    obtain ⟨before, hbefore, hnext⟩ := Option.bind_eq_some_iff.mp hk
    obtain ⟨hfeasible, hle⟩ := ih hbefore
    obtain ⟨hlater, q, w, _, hq, hw, hvalue⟩ := hfeasible.next ht hcosts hnext 0
    refine ⟨hlater, hle.trans ?_⟩
    rw [hvalue]
    exact le_add_of_nonneg_right (mul_nonneg hq hw.le)

/-- A phase whose value is no higher later on makes a pivot with the ratio zero now. -/
theorem leastRatio?_eq_zero (h : p.IsBasicFeasible rows) (ht : s.tolerance = 0)
    (hcosts : s.costs.length ≤ p.columns.length) {k : ℕ} {here : List (Row K)}
    (hk : s.after rows (k + 1) = some here)
    (hvalue : basicValue s.costs here ≤ basicValue s.costs rows) (made : ℕ) :
    (s.visit made rows).leastRatio? = some 0 := by
  rw [Stage.after_succ] at hk
  obtain ⟨later, hnext, hlater⟩ := Option.bind_eq_some_iff.mp hk
  obtain ⟨hfeasible, q, w, hratio, hq, hw, hgain⟩ := h.next ht hcosts hnext made
  have hle := (hfeasible.after ht hcosts hlater).2.trans hvalue
  rw [hgain, add_le_iff_nonpos_right] at hle
  rw [hratio, le_antisymm (nonpos_of_mul_nonpos_left hle hw) hq]

end IsBasicFeasible

theorem Starts.isBasicFeasible {limit : ℕ} {s : Stage K} {left made : ℕ}
    (h : p.Starts ⟨limit, 0, 0⟩ s left made rows) : p.IsBasicFeasible rows := by
  refine ⟨h.isTableau le_rfl, ?_⟩
  cases h with
  | second _ hnone =>
    exact (p.isReady_driveOut limit limit 0 (phaseOneFailure?_eq_none hnone).2).rhs_nonneg
  | _ => exact p.initialRows_rhs_nonneg

/-- From one record of a phase to another, the phase goes on from a basic feasible solution. -/
theorem exists_stage_between {limit i j : ℕ} {a b : Snapshot K}
    (ha : (p.simplex ⟨limit, 0, 0⟩).trace[i]? = some a)
    (hb : (p.simplex ⟨limit, 0, 0⟩).trace[j]? = some b) (hphase : a.phase = b.phase) :
    ∃ s : Stage K, s.tolerance = 0 ∧ s.costs.length ≤ p.columns.length ∧
      p.IsBasicFeasible a.rows ∧ ∀ m, i + m ≤ j → ∃ here, s.after a.rows m = some here ∧
        (p.simplex ⟨limit, 0, 0⟩).trace[i + m]? = some (s.visit (a.iteration + m) here) := by
  obtain ⟨s, left, made, rows, k, hstarts, _, hafter, hbetween⟩ :=
    exists_starts_between ha hb hphase
  have hcosts := hstarts.length_costs.le
  exact ⟨s, hstarts.tolerance_eq, hcosts,
    (hstarts.isBasicFeasible.after hstarts.tolerance_eq hcosts hafter).1, hbetween⟩

/-- One pivot lies between neighbours in the trace. -/
theorem value_le_of_next {limit k : ℕ} {a b : Snapshot K}
    (ha : (p.simplex ⟨limit, 0, 0⟩).trace[k]? = some a)
    (hb : (p.simplex ⟨limit, 0, 0⟩).trace[k + 1]? = some b) (hphase : a.phase = b.phase) :
    ∃ q, a.leastRatio? = some q ∧ 0 ≤ q ∧ a.value ≤ b.value ∧ (0 < q → a.value < b.value) := by
  obtain ⟨s, ht, hcosts, hfeasible, hbetween⟩ := exists_stage_between ha hb hphase
  obtain ⟨here, hhere, hvisit⟩ := hbetween 0 (Nat.le_succ k)
  obtain rfl := Option.some.inj hhere
  obtain ⟨later, hlater, hvisit'⟩ := hbetween 1 le_rfl
  have ha' : a = s.visit a.iteration a.rows := Option.some.inj (ha.symm.trans hvisit)
  have hb' : b = s.visit (a.iteration + 1) later := Option.some.inj (hb.symm.trans hvisit')
  obtain ⟨_, q, w, hratio, hq, hw, hvalue⟩ := hfeasible.next ht hcosts hlater a.iteration
  have hgain : b.value = a.value + q * w := by
    rw [hb', ha']
    exact hvalue
  rw [← ha'] at hratio
  refine ⟨q, hratio, hq, ?_, fun hpos => ?_⟩
  · rw [hgain]
    exact le_add_of_nonneg_right (mul_nonneg hq hw.le)
  · rw [hgain]
    exact lt_add_of_pos_right _ (mul_pos hpos hw)

/-- Between two records of one basis a phase stands still. -/
theorem leastRatio?_eq_zero_of_basis_eq {limit i j k : ℕ} {a b : Snapshot K}
    (ha : (p.simplex ⟨limit, 0, 0⟩).trace[i]? = some a)
    (hb : (p.simplex ⟨limit, 0, 0⟩).trace[j]? = some b) (hphase : a.phase = b.phase)
    (hbasis : a.basis = b.basis) (hik : i ≤ k) (hkj : k < j) :
    (p.simplex ⟨limit, 0, 0⟩).trace[k]?.bind Snapshot.leastRatio? = some 0 := by
  obtain ⟨s, ht, hcosts, hfeasible, hbetween⟩ := exists_stage_between ha hb hphase
  obtain ⟨l, rfl⟩ := Nat.exists_eq_add_of_le (hik.trans hkj.le)
  obtain ⟨m, rfl⟩ := Nat.exists_eq_add_of_le hik
  obtain ⟨d, rfl⟩ := Nat.exists_eq_add_of_lt (Nat.lt_of_add_lt_add_left hkj)
  obtain ⟨here, hhere, hvisit⟩ := hbetween m hkj.le
  obtain ⟨last, hlast, hvisit'⟩ := hbetween (m + d + 1) le_rfl
  have hb' : b = s.visit (a.iteration + (m + d + 1)) last :=
    Option.some.inj (hb.symm.trans hvisit')
  -- the value has grown up to here, and at the last record it is what it was at the first
  obtain ⟨hthere, hle⟩ := hfeasible.after ht hcosts hhere
  have hsame : basicValue s.costs a.rows = basicValue s.costs last :=
    hfeasible.basicValue_eq (hfeasible.after ht hcosts hlast).1.toIsTableau
      (hbasis.trans (congrArg Snapshot.basis hb')) s.costs
  rw [Nat.add_assoc, Stage.after_add, hhere] at hlast
  rw [hvisit]
  exact hthere.leastRatio?_eq_zero ht hcosts hlast (hsame.ge.trans hle) _

/-- Every record is of a basic feasible solution, the value of a phase never falls and rises with
every pivot of positive ratio, so a basis comes back only over pivots of ratio zero, and the first
phase never runs off. -/
theorem simplex_never_worsens (p : Problem K) (limit : ℕ) :
    let visited := (p.simplex ⟨limit, 0, 0⟩).trace
    (∀ t ∈ visited, (∀ r ∈ t.rows, 0 ≤ r.rhs) ∧ (∀ j, 0 ≤ basicSolution t.rows j) ∧
        Solves p.columns.length p.initialRows (basicSolution t.rows)) ∧
      (∀ (k : ℕ) (a b : Snapshot K), visited[k]? = some a → visited[k + 1]? = some b →
        a.phase = b.phase → ∃ q, a.leastRatio? = some q ∧ 0 ≤ q ∧
          a.value ≤ b.value ∧ (0 < q → a.value < b.value)) ∧
      (∀ (i j : ℕ) (a b : Snapshot K), visited[i]? = some a → visited[j]? = some b →
        a.phase = b.phase → a.basis = b.basis → ∀ k, i ≤ k → k < j →
          visited[k]?.bind Snapshot.leastRatio? = some 0) ∧
      (p.firstLeg ⟨limit, 0, 0⟩).ending ≠ .unbounded := by
  intro visited
  refine ⟨fun t ht => ?_, fun k a b => value_le_of_next, fun i j a b ha hb hphase hbasis k => ?_,
    p.stageOne_not_unbounded limit limit 0⟩
  · obtain ⟨i, hi⟩ := List.mem_iff_getElem?.mp ht
    obtain ⟨_, _, _, hfeasible, _⟩ := exists_stage_between hi hi rfl
    exact ⟨hfeasible.rhs_nonneg, basicSolution_nonneg hfeasible.rhs_nonneg,
      hfeasible.basicSolution_solves⟩
  · exact leastRatio?_eq_zero_of_basis_eq ha hb hphase hbasis

theorem simplex_never_worsens_sixPivots :
    (mixedRows.simplex ⟨10, 0, 0⟩).trace.map Snapshot.value = [-6, -2, 0, 11 / 2, 21 / 2] ∧
      (∀ t ∈ (mixedRows.simplex ⟨10, 0, 0⟩).trace, ∀ r ∈ t.rows, 0 ≤ r.rhs) ∧
      (mixedRows.firstLeg ⟨10, 0, 0⟩).ending ≠ .unbounded ∧
      let visited := (Solver.sixPivots.simplex ⟨7, 0, 0⟩).trace
      visited[0]?.map Snapshot.basis = visited[6]?.map Snapshot.basis ∧
        ∀ k < 6, visited[k]?.bind Snapshot.leastRatio? = some 0 := by
  obtain ⟨hfeasible, _, _, hbounded⟩ := simplex_never_worsens mixedRows 10
  obtain ⟨_, _, hstands, _⟩ := simplex_never_worsens Solver.sixPivots 7
  refine ⟨by decide +kernel, fun t ht => (hfeasible t ht).1, hbounded, ?_⟩
  intro visited
  obtain ⟨a, ha⟩ : ∃ a, visited[0]? = some a := Option.isSome_iff_exists.mp (by decide +kernel)
  obtain ⟨b, hb⟩ : ∃ b, visited[6]? = some b := Option.isSome_iff_exists.mp (by decide +kernel)
  have hphase : visited[0]?.map Snapshot.phase = visited[6]?.map Snapshot.phase := by
    decide +kernel
  have hbasis : visited[0]?.map Snapshot.basis = visited[6]?.map Snapshot.basis := by
    decide +kernel
  refine ⟨hbasis, fun k hk => ?_⟩
  rw [ha, hb] at hphase hbasis
  exact hstands 0 6 a b ha hb (Option.some.inj hphase) (Option.some.inj hbasis) k (Nat.zero_le k) hk

end Problem
end LinProg
