import LinProg.Proofs.Simplex.Bases
import LinProg.Proofs.Simplex.Soundness

/-!
# What a run reaches and records

A run comes to the tableaus after each pivot of a phase that the limit allows, and to those between
the phases after each row that has been passed. All of them are canonical and have the solutions of
the first one, and the costs of either phase price them. What a run records of one phase stands
together in the trace. Tolerances may be any that are not negative, and right-hand sides may have
any sign.
-/
namespace LinProg

namespace Problem

section
variable {K : Type} [Scalar K] {p : Problem K} {limits : Limits K}

/-- The first phase of a run that needs one. -/
def firstLeg (p : Problem K) (limits : Limits K) : Leg K :=
  (p.stageOne limits).run limits.pivots 0 p.initialRows

/-- The phases of a run, each with the pivots left, the pivots made and the rows where it starts. -/
inductive Starts (p : Problem K) (limits : Limits K) :
    Stage K → ℕ → ℕ → List (Row K) → Prop
  | only : p.artificialColumns.isEmpty = true →
      Starts p limits (p.stageTwo limits) limits.pivots 0 p.initialRows
  | first : ¬ p.artificialColumns.isEmpty = true →
      Starts p limits (p.stageOne limits) limits.pivots 0 p.initialRows
  | second : ¬ p.artificialColumns.isEmpty = true →
      p.phaseOneFailure? limits (p.firstLeg limits) = none →
      Starts p limits (p.stageTwo limits) (limits.pivots - (p.firstLeg limits).pivots)
        (p.firstLeg limits).pivots
        (driveOut p.realColumns.length limits.tolerance (p.firstLeg limits).rows)

/-- The tableaus of a run: the first one, one after each pivot of a phase, and one after each row
that the run passes between the phases. -/
inductive Reaches (p : Problem K) (limits : Limits K) : List (Row K) → Prop
  | pivots {s : Stage K} {left made k : ℕ} {rows here : List (Row K)} :
      p.Starts limits s left made rows → k ≤ left → s.after rows k = some here →
      Reaches p limits here
  | passed {k : ℕ} : ¬ p.artificialColumns.isEmpty = true →
      p.phaseOneFailure? limits (p.firstLeg limits) = none →
      k ≤ (p.firstLeg limits).rows.length →
      Reaches p limits ((List.range k).foldl
        (replaceArtificial p.realColumns.length limits.tolerance) (p.firstLeg limits).rows)

theorem Starts.tolerance_eq {s : Stage K} {left made : ℕ} {rows : List (Row K)}
    (h : p.Starts limits s left made rows) : s.tolerance = limits.tolerance := by
  cases h <;> rfl

theorem Starts.length_costs {s : Stage K} {left made : ℕ} {rows : List (Row K)}
    (h : p.Starts limits s left made rows) : s.costs.length = p.columns.length := by
  cases h with
  | first => exact p.length_artificialCosts
  | _ => exact p.length_objectiveCosts

/-- What is found in a list of three parts but is in neither of the outer ones is in the middle. -/
theorem exists_middle_of_getElem? {A : Type} {before middle later : List A} {i : ℕ} {a : A}
    (h : (before ++ middle ++ later)[i]? = some a) (ha : a ∉ before ++ later) :
    ∃ k, i = before.length + k ∧ middle[k]? = some a := by
  rw [List.mem_append, not_or] at ha
  rcases Nat.lt_or_ge i before.length with hi | hi
  · rw [List.append_assoc, List.getElem?_append_left hi] at h
    exact absurd (List.mem_of_getElem? h) ha.1
  obtain ⟨k, rfl⟩ := Nat.exists_eq_add_of_le hi
  rw [List.append_assoc, List.getElem?_append_right hi, Nat.add_sub_cancel_left] at h
  rcases Nat.lt_or_ge k middle.length with hk | hk
  · rw [List.getElem?_append_left hk] at h
    exact ⟨k, rfl, h⟩
  · rw [List.getElem?_append_right hk] at h
    exact absurd (List.mem_of_getElem? h) ha.2

theorem phase_of_mem_trace {s : Stage K} {left made : ℕ} {rows : List (Row K)} {t : Snapshot K}
    (ht : t ∈ (s.run left made rows).trace) : t.phase = s.phase := by
  obtain ⟨k, here, rfl⟩ := Stage.exists_visit_of_mem ht
  rfl

/-- What a run records in a phase stands between records of the other phase. -/
theorem exists_starts_of_mem {t : Snapshot K} (ht : t ∈ (p.simplex limits).trace) :
    ∃ s left made rows before later, p.Starts limits s left made rows ∧ t.phase = s.phase ∧
      (p.simplex limits).trace = before ++ (s.run left made rows).trace ++ later ∧
        ∀ u ∈ before ++ later, u.phase ≠ s.phase := by
  by_cases hart : p.artificialColumns.isEmpty = true
  · rw [simplex_of_isEmpty hart] at ht ⊢
    exact ⟨_, _, _, _, [], [], .only hart, phase_of_mem_trace ht, by simp, by simp⟩
  cases he : p.phaseOneFailure? limits (p.firstLeg limits) with
  | some e =>
    rw [simplex_of_failure hart he] at ht ⊢
    exact ⟨_, _, _, _, [], [], .first hart, phase_of_mem_trace ht, by simp, by simp⟩
  | none =>
    rw [simplex_of_accepted hart he] at ht ⊢
    rcases List.mem_append.mp ht with hfirst | hsecond
    · refine ⟨_, _, _, _, [], _, .first hart, phase_of_mem_trace hfirst, rfl, fun u hu => ?_⟩
      rw [phase_of_mem_trace (List.mem_append.mp hu |>.resolve_left List.not_mem_nil)]
      exact Phase.noConfusion
    · refine ⟨_, _, _, _, _, [], .second hart he, phase_of_mem_trace hsecond,
        (List.append_nil _).symm, fun u hu => ?_⟩
      rw [List.append_nil] at hu
      rw [phase_of_mem_trace hu]
      exact Phase.noConfusion

/-- From one record of a phase to another, each record is that of the tableau after the next
pivot. -/
theorem exists_starts_between {i j : ℕ} {a b : Snapshot K}
    (ha : (p.simplex limits).trace[i]? = some a) (hb : (p.simplex limits).trace[j]? = some b)
    (hphase : a.phase = b.phase) : ∃ s left made rows k,
      p.Starts limits s left made rows ∧ k ≤ left ∧ s.after rows k = some a.rows ∧
        ∀ m, i + m ≤ j → ∃ here, s.after a.rows m = some here ∧
          (p.simplex limits).trace[i + m]? = some (s.visit (a.iteration + m) here) := by
  obtain ⟨s, left, made, rows, before, later, hstarts, hs, htrace, hapart⟩ :=
    exists_starts_of_mem (List.mem_of_getElem? ha)
  rw [htrace] at ha hb ⊢
  obtain ⟨k, rfl, hk⟩ := exists_middle_of_getElem? ha fun hmem => hapart a hmem hs
  obtain ⟨l, rfl, hl⟩ := exists_middle_of_getElem? hb
    fun hmem => hapart b hmem (hphase.symm.trans hs)
  obtain ⟨start, hstart, hleft, rfl⟩ := Stage.run_trace_eq_some hk
  refine ⟨s, left, made, rows, k, hstarts, hleft, hstart, fun m hm => ?_⟩
  have hlast : l < (s.run left made rows).trace.length := (List.getElem?_eq_some_iff.mp hl).1
  have hlt : k + m < (s.run left made rows).trace.length := by omega
  obtain ⟨here, hhere, _, hvisit⟩ :=
    Stage.run_trace_eq_some (List.getElem?_eq_getElem hlt)
  rw [Stage.after_add, hstart] at hhere
  refine ⟨here, hhere, ?_⟩
  rw [List.append_assoc, Nat.add_assoc, List.getElem?_append_right (Nat.le_add_right _ _),
    Nat.add_sub_cancel_left, List.getElem?_append_left hlt, List.getElem?_eq_getElem hlt, hvisit,
    ← Nat.add_assoc]
  rfl

end
end Problem

variable {K : Type} [Field K] [LinearOrder K]

theorem Canonical.nodup_basic {n : ℕ} {rows : List (Row K)} (h : Canonical n rows) :
    (rows.map Row.basic).Nodup := by
  rw [List.nodup_iff_injective_get]
  intro i k hik
  simp only [List.get_eq_getElem, List.getElem_map] at hik
  exact Fin.ext (h.basic_inj (by simpa using i.isLt) (by simpa using k.isLt) hik)

/-- A value and reduced costs tell the cost of every solution of the rows. -/
def Prices (n : ℕ) (costs reduced : List K) (value : K) (rows : List (Row K)) : Prop :=
  ∀ y, Solves n rows y → totalCost n costs y = value + totalCost n reduced y

theorem prices_reducedCosts {n : ℕ} {costs : List K} (hlength : costs.length = n)
    (rows : List (Row K)) :
    Prices n costs (reducedCosts costs rows) (basicValue costs rows) rows := by
  intro y hy
  rw [Canonical.totalCost_eq costs hy, totalCost]
  congr 1
  refine Finset.sum_congr rfl fun j hj => ?_
  rw [reducedCosts_getElem? (hlength ▸ Finset.mem_range.mp hj), Option.getD_some]

namespace Problem
variable [IsStrictOrderedRing K] {p : Problem K} {limits : Limits K}

theorem Starts.isTableau (ht : 0 ≤ limits.tolerance) {s : Stage K} {left made : ℕ}
    {rows : List (Row K)} (h : p.Starts limits s left made rows) : p.IsTableau rows := by
  cases h with
  | second =>
    exact (p.isTableau_initialRows.run ht p.length_artificialCosts.le _ _).driveOut ht
  | _ => exact p.isTableau_initialRows

/-- Every tableau that a run reaches is one of its problem. -/
theorem Reaches.isTableau (ht : 0 ≤ limits.tolerance) {rows : List (Row K)}
    (h : p.Reaches limits rows) : p.IsTableau rows := by
  cases h with
  | pivots hstarts _ hafter =>
    have htolerance := hstarts.tolerance_eq.symm ▸ ht
    exact ((hstarts.isTableau ht).after htolerance hstarts.length_costs.le hafter).1
  | passed =>
    exact (p.isTableau_initialRows.run ht p.length_artificialCosts.le _ _).replaceArtificials ht _

omit [IsStrictOrderedRing K] in
/-- What a run records is the pricing of a tableau that it reaches. -/
theorem reaches_of_mem_trace {t : Snapshot K} (ht : t ∈ (p.simplex limits).trace) :
    p.Reaches limits t.rows ∧ Prices p.columns.length t.costs t.reduced t.value t.rows := by
  obtain ⟨i, hi⟩ := List.mem_iff_getElem?.mp ht
  obtain ⟨s, left, made, rows, k, hstarts, hleft, hafter, hbetween⟩ :=
    exists_starts_between hi hi rfl
  obtain ⟨here, hhere, hvisit⟩ := hbetween 0 le_rfl
  obtain rfl := Option.some.inj hhere
  have ht : t = s.visit t.iteration t.rows := Option.some.inj (hi.symm.trans hvisit)
  refine ⟨.pivots hstarts hleft hafter, ?_⟩
  rw [ht]
  exact prices_reducedCosts hstarts.length_costs _

omit [IsStrictOrderedRing K] in
theorem reaches_initialRows (p : Problem K) (limits : Limits K) :
    p.Reaches limits p.initialRows := by
  by_cases hart : p.artificialColumns.isEmpty = true
  · exact .pivots (.only hart) (Nat.zero_le _) rfl
  · exact .pivots (.first hart) (Nat.zero_le _) rfl

/-- The tableaus of a run have distinct basic columns that form a unit matrix, the solutions of the
first tableau, and the prices that the run shows, so an optimum has the value of its point. -/
theorem simplex_keeps_tableaus (p : Problem K) (limits : Limits K) (ht : 0 ≤ limits.tolerance) :
    p.Reaches limits p.initialRows ∧
      (∀ rows, p.Reaches limits rows → p.IsTableau rows ∧ (rows.map Row.basic).Nodup ∧
        ∀ costs ∈ [p.artificialCosts, p.objectiveCosts],
          Prices p.columns.length costs (reducedCosts costs rows) (basicValue costs rows) rows) ∧
      (∀ t ∈ (p.simplex limits).trace, p.Reaches limits t.rows ∧
        Prices p.columns.length t.costs t.reduced t.value t.rows) ∧
      ∀ best, (p.simplex limits).outcome = .ok best →
        best.value = p.objectiveAt best.coordinates := by
  refine ⟨p.reaches_initialRows limits, fun rows h => ?_, fun t => reaches_of_mem_trace,
    fun best hbest => ?_⟩
  · have htableau := h.isTableau ht
    refine ⟨htableau, htableau.canonical.nodup_basic, fun costs hcosts => ?_⟩
    apply prices_reducedCosts
    rcases List.mem_pair.mp hcosts with rfl | rfl
    · exact p.length_artificialCosts
    · exact p.length_objectiveCosts
  · obtain ⟨t, _, htableau, rfl⟩ := exists_tableau_of_ok limits ht hbest
    exact htableau.value_eq_objectiveAt

theorem simplex_keeps_tableaus_mixedRows :
    (0 : ℚ) ≤ 1 / 1000 ∧
      (mixedRows.simplex ⟨10, 1 / 1000, 1 / 100⟩).outcome = .ok ⟨[5 / 2, 3 / 2], 21 / 2⟩ ∧
      mixedRows.objectiveAt [5 / 2, 3 / 2] = 21 / 2 ∧
      (mixedRows.simplex ⟨10, 1 / 1000, 1 / 100⟩).trace.length = 5 ∧
      ∀ t ∈ (mixedRows.simplex ⟨10, 1 / 1000, 1 / 100⟩).trace,
        mixedRows.IsTableau t.rows ∧ (t.rows.map Row.basic).Nodup := by
  have htolerance : (0 : ℚ) ≤ 1 / 1000 := by decide +kernel
  obtain ⟨_, htableaus, htrace, hvalue⟩ :=
    simplex_keeps_tableaus mixedRows ⟨10, 1 / 1000, 1 / 100⟩ htolerance
  have hbest : (mixedRows.simplex ⟨10, 1 / 1000, 1 / 100⟩).outcome =
      .ok ⟨[5 / 2, 3 / 2], 21 / 2⟩ := by decide +kernel
  refine ⟨htolerance, hbest, (hvalue _ hbest).symm, by decide +kernel, fun t ht => ?_⟩
  obtain ⟨htableau, hnodup, _⟩ := htableaus t.rows (htrace t ht).1
  exact ⟨htableau, hnodup⟩

end Problem
end LinProg
