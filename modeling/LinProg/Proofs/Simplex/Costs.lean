import LinProg.Proofs.Problem.Optimality
import LinProg.Proofs.Simplex.Initial

/-!
# What the two phases price

The costs of the second phase price the values of the columns as the objective prices the point
that they form. The costs of the first phase count the artificial columns, negatively.
-/
namespace LinProg
open Finset
variable {K : Type} [Field K] [LinearOrder K]

namespace Problem

/-- The cost of a column in the second phase. -/
def columnCost (p : Problem K) : Column → K
  | .decision j => p.maximized[j]?.getD 0
  | _ => 0

variable {p : Problem K}

theorem getElem?_objectiveCosts (p : Problem K) (j : ℕ) :
    p.objectiveCosts[j]? = p.columns[j]?.map p.columnCost := by
  rw [objectiveCosts, List.getElem?_map]
  congr 1

theorem artificialCosts_getD {j : ℕ} (hj : j < p.columns.length) :
    p.artificialCosts[j]?.getD 0 = if p.realColumns.length ≤ j then (-1 : K) else 0 := by
  simp [artificialCosts, hj, isArtificial_getElem_iff hj]

theorem columnCost_of_isArtificial {c : Column} (h : c.isArtificial = true) :
    p.columnCost c = 0 := by
  cases c <;> simp_all [columnCost, Column.isArtificial]

/-- The costs of the second phase add up to the objective as a function to be maximised. -/
theorem totalCost_objectiveCosts (p : Problem K) (y : ℕ → K) :
    totalCost p.columns.length p.objectiveCosts y =
      p.objective.sense.signed (p.objectiveAt (p.pointOf y)) := by
  set f : Column → K := fun c => p.columnCost c * p.columnValue y c with hf
  have hsum : totalCost p.columns.length p.objectiveCosts y = (p.columns.map f).sum := by
    rw [hf, ← sum_range_width, totalCost]
    refine sum_congr rfl fun j _ => ?_
    rw [getElem?_objectiveCosts]
    cases p.columns[j]? <;> rfl
  have hslacks : (((p.standardRows.mapIdx fun i c => c.relation.slackColumn? i).filterMap id).map
      f).sum = 0 := by
    refine List.sum_eq_zero fun v hv => ?_
    obtain ⟨c, hc, rfl⟩ := List.mem_map.mp hv
    obtain ⟨i, hi, hc⟩ := mem_filterMap_mapIdx.mp hc
    obtain ⟨_, rfl⟩ | ⟨_, rfl⟩ := Relation.slackColumn?_eq_some_iff.mp hc <;>
      simp [hf, columnCost]
  have hartificial : (p.artificialColumns.map f).sum = 0 := by
    refine List.sum_eq_zero fun v hv => ?_
    obtain ⟨c, hc, rfl⟩ := List.mem_map.mp hv
    simp [hf, columnCost_of_isArtificial (isArtificial_of_mem_artificialColumns hc)]
  rw [hsum, columns, realColumns, List.map_append, List.map_append, List.sum_append,
    List.sum_append, hslacks, hartificial, add_zero, add_zero, ← dot_maximized]
  exact sum_decisions p.length_maximized (fun _ => rfl) y

/-- The costs of the first phase are the sum of the artificial columns, negated. -/
theorem totalCost_artificialCosts (p : Problem K) (y : ℕ → K) :
    totalCost p.columns.length p.artificialCosts y =
      -∑ j ∈ range p.columns.length, if p.realColumns.length ≤ j then y j else 0 := by
  rw [totalCost, ← sum_neg_distrib]
  refine sum_congr rfl fun j hj => ?_
  rw [artificialCosts_getD (mem_range.mp hj)]
  split_ifs <;> simp

theorem basicValue_artificialCosts {rows : List (Row K)}
    (h : ∀ r ∈ rows, r.basic < p.columns.length) : basicValue p.artificialCosts rows =
      -∑ i : Fin rows.length,
        if p.realColumns.length ≤ (rows.get i).basic then (rows.get i).rhs else 0 := by
  rw [basicValue_eq, ← sum_neg_distrib]
  refine sum_congr rfl fun i _ => ?_
  have hcost := artificialCosts_getD (h _ (List.getElem_mem i.isLt))
  simp only [List.get_eq_getElem, Fin.getElem_fin, Row.basicCost, hcost]
  split_ifs <;> simp

end Problem

omit [LinearOrder K] in
theorem basicSolution_cons (r : Row K) (rows : List (Row K)) (j : ℕ) :
    basicSolution (r :: rows) j = (if r.basic = j then r.rhs else 0) + basicSolution rows j := by
  simp [basicSolution_eq_sum]

omit [LinearOrder K] in
/-- Setting entries that are still zero adds the basic solution. -/
theorem getElem?_foldl_set {rows : List (Row K)} (hnodup : (rows.map Row.basic).Nodup)
    {values : List K} (hzero : ∀ r ∈ rows, values[r.basic]?.getD 0 = 0) {j : ℕ}
    (hj : j < values.length) :
    (rows.foldl (fun values r => values.set r.basic r.rhs) values)[j]? =
      some (values[j]?.getD 0 + basicSolution rows j) := by
  induction rows generalizing values with
  | nil => simp [basicSolution, hj]
  | cons r rows ih =>
    obtain ⟨hr, hrows⟩ := List.nodup_cons.mp hnodup
    have hset (k : ℕ) (hk : k < values.length) : (values.set r.basic r.rhs)[k]?.getD 0 =
        values[k]?.getD 0 + if r.basic = k then r.rhs else 0 := by
      have h0 := hzero r (List.mem_cons_self ..)
      by_cases hrk : r.basic = k
      · subst hrk
        rw [h0, List.getElem?_set_self hk, if_pos rfl, zero_add]
        rfl
      · rw [List.getElem?_set_ne hrk, if_neg hrk, add_zero]
    have hzero' : ∀ s ∈ rows, (values.set r.basic r.rhs)[s.basic]?.getD 0 = 0 := by
      intro s hs
      have hne : r.basic ≠ s.basic := fun h => hr (h ▸ List.mem_map_of_mem hs)
      rw [List.getElem?_set_ne hne]
      exact hzero s (List.mem_cons_of_mem _ hs)
    rw [List.foldl_cons, ih hrows hzero' (by simpa using hj), hset j hj, basicSolution_cons,
      add_assoc]

/-- The point read off a canonical tableau is the first part of its basic solution. -/
theorem Canonical.basicPoint_eq {n : ℕ} {rows : List (Row K)} (h : Canonical n rows) (k : ℕ) :
    basicPoint k rows = (List.range k).map (basicSolution rows) := by
  have hnodup : (rows.map Row.basic).Nodup := by
    refine List.nodup_iff_injective_get.mpr fun a b hab => Fin.ext ?_
    exact h.basic_inj (by simpa using a.isLt) (by simpa using b.isLt) (by simpa using hab)
  refine List.ext_getElem? fun j => ?_
  rcases lt_or_ge j k with hj | hj
  · rw [basicPoint, getElem?_foldl_set hnodup (fun r _ => ?_) (by simpa using hj)]
    · simp [hj]
    · rw [List.getElem?_replicate]
      split_ifs <;> rfl
  · rw [List.getElem?_eq_none (by simpa using hj), List.getElem?_eq_none (by simpa using hj)]

end LinProg
