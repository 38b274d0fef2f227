import LinProg.Proofs.Simplex.Pricing

/-!
# By how much the point of a tableau misses the problem

Where entries and sums below a tolerance are overlooked, right-hand sides can become negative and
artificial columns can stay positive. The point that a tableau shows satisfies the problem up to
an amount exactly when no right-hand side goes wrong by more. Nothing bounds these amounts.
-/
namespace LinProg
open Finset
variable {K : Type} [Field K] [LinearOrder K]

theorem Row.lhs_indicators {n a b : ℕ} (ha : a < n) (hb : b < n) (r : Row K) :
    r.lhs n (fun j => (if j = a then 1 else 0) + if j = b then 1 else 0) =
      r.entry a + r.entry b := by
  simp [lhs, mul_add, sum_add_distrib, ha, hb]

namespace Problem

/-- The value of a column misses its sign by no more than a tolerance. An artificial column should
be zero; where a surplus can take up a negative value, only positive ones count. -/
def Admits (p : Problem K) (t : K) (v : K) : Column → Prop
  | .artificial i => v ≤ t ∧ ∀ c ∈ p.standardRows[i]?, c.relation = .eq → -t ≤ v
  | _ => -t ≤ v

variable {p : Problem K} {rows : List (Row K)}

@[simp] theorem admits_decision {t v : K} {j : ℕ} : p.Admits t v (.decision j) ↔ -t ≤ v := Iff.rfl

@[simp] theorem admits_slack {t v : K} {i : ℕ} : p.Admits t v (.slack i) ↔ -t ≤ v := Iff.rfl

@[simp] theorem admits_surplus {t v : K} {i : ℕ} : p.Admits t v (.surplus i) ↔ -t ≤ v := Iff.rfl

theorem admits_artificial {t v : K} {i : ℕ} (hi : i < p.standardRows.length) :
    p.Admits t v (.artificial i) ↔
      v ≤ t ∧ (p.standardRows[i].relation = .eq → -t ≤ v) := by
  simp [Admits, List.getElem?_eq_getElem hi]

theorem admits_zero [IsStrictOrderedRing K] {t : K} (ht : 0 ≤ t) (c : Column) : p.Admits t 0 c := by
  have hneg : -t ≤ 0 := neg_nonpos.mpr ht
  cases c with
  | artificial i => exact ⟨ht, fun _ _ _ => hneg⟩
  | _ => exact hneg

theorem surplus_mem {i : ℕ} (hi : i < p.standardRows.length)
    (hr : p.standardRows[i].relation = .ge) : Column.surplus i ∈ p.columns :=
  slackColumn?_mem hi (by rw [hr]; rfl)

theorem artificial_mem {i : ℕ} (hi : i < p.standardRows.length)
    (hr : p.standardRows[i].relation ≠ .le) : Column.artificial i ∈ p.columns := by
  refine artificialColumn?_mem hi ?_
  cases h : p.standardRows[i].relation <;> simp_all [Relation.artificialColumn?]

/-- What holds of every column holds of the variables and of the auxiliary columns of each row. -/
theorem forall_mem_columns {P : Column → Prop} : (∀ c ∈ p.columns, P c) ↔
    (∀ j < p.size, P (.decision j)) ∧ ∀ i, ∀ hi : i < p.standardRows.length, ∀ c,
      (p.standardRows[i].relation.slackColumn? i = some c ∨
        p.standardRows[i].relation.artificialColumn? i = some c) → P c := by
  simp only [columns, List.mem_append, mem_realColumns, mem_artificialColumns]
  constructor
  · intro hall
    refine ⟨fun j hj => hall _ (.inl (.inl ⟨j, hj, rfl⟩)), fun i hi c hc => hall c ?_⟩
    exact hc.elim (fun hs => .inl (.inr ⟨i, hi, hs⟩)) fun ha => .inr ⟨i, hi, ha⟩
  · rintro ⟨hdecisions, hrows⟩ c ((⟨j, hj, rfl⟩ | ⟨i, hi, hs⟩) | ⟨i, hi, ha⟩)
    · exact hdecisions j hj
    · exact hrows i hi c (.inl hs)
    · exact hrows i hi c (.inr ha)

namespace IsTableau

/-- The columns of a surplus and of the artificial variable of its row stay opposite. -/
theorem entry_surplus_add_entry_artificial (h : p.IsTableau rows) {i : ℕ}
    (hi : i < p.standardRows.length) (hr : p.standardRows[i].relation = .ge) {r : Row K}
    (hrow : r ∈ rows) : r.entry (p.columns.idxOf (.surplus i)) +
      r.entry (p.columns.idxOf (.artificial i)) = 0 := by
  have hs := List.idxOf_lt_length_iff.mpr (surplus_mem hi hr)
  have ha := List.idxOf_lt_length_iff.mpr (artificial_mem hi (by simp [hr]))
  set z : ℕ → K := fun j => (if j = p.columns.idxOf (.surplus i) then 1 else 0) +
    if j = p.columns.idxOf (.artificial i) then 1 else 0 with hz
  have hinitial : Solves p.columns.length p.initialRows
      (fun j => basicSolution rows j + 1 * z j) := by
    rw [solves_iff_getElem]
    intro k hk
    have hlhs : p.initialRows[k].lhs p.columns.length z = 0 := by
      rw [hz, Row.lhs_indicators hs ha, entry_initialRows hk hs, entry_initialRows hk ha,
        List.getElem_idxOf, List.getElem_idxOf]
      simp only [Column.entry]
      split_ifs <;> simp
    rw [Row.Holds, Row.lhs_add_mul, hlhs, mul_zero, add_zero]
    exact solves_iff_getElem.mp h.basicSolution_solves k hk
  have hmoved := (h.solves_iff _).mpr hinitial r hrow
  rw [Row.Holds, Row.lhs_add_mul, h.canonical.basicSolution_solves r hrow, one_mul,
    add_eq_left] at hmoved
  rwa [hz, Row.lhs_indicators hs ha] at hmoved

/-- A surplus and the artificial variable of its row are never both basic. -/
theorem surplus_or_artificial_eq_zero (h : p.IsTableau rows) {i : ℕ}
    (hi : i < p.standardRows.length) (hr : p.standardRows[i].relation = .ge) :
    p.columnValue (basicSolution rows) (.surplus i) = 0 ∨
      p.columnValue (basicSolution rows) (.artificial i) = 0 := by
  by_cases hs : ∀ r ∈ rows, r.basic ≠ p.columns.idxOf (.surplus i)
  · exact .inl (basicSolution_of_not_basic hs)
  by_cases ha : ∀ r ∈ rows, r.basic ≠ p.columns.idxOf (.artificial i)
  · exact .inr (basicSolution_of_not_basic ha)
  push Not at hs ha
  obtain ⟨r, hrmem, hrs⟩ := hs
  obtain ⟨q, hqmem, hqa⟩ := ha
  obtain ⟨k, hk, rfl⟩ := List.getElem_of_mem hrmem
  obtain ⟨l, hl, rfl⟩ := List.getElem_of_mem hqmem
  have hkl : k ≠ l := by
    rintro rfl
    have hcol := (List.idxOf_inj (surplus_mem hi hr)).mp (hrs.symm.trans hqa)
    exact Column.noConfusion hcol
  have hsum := h.entry_surplus_add_entry_artificial hi hr hrmem
  rw [← hrs, ← hqa, h.canonical.unit k hk k hk, h.canonical.unit k hk l hl, if_pos rfl,
    if_neg hkl, add_zero] at hsum
  exact absurd hsum one_ne_zero

variable [IsStrictOrderedRing K]

/-- A row forgives the values of its auxiliary columns if each of them is admitted. -/
theorem forgives_iff_admits (h : p.IsTableau rows) {t : K} (ht : 0 ≤ t) {i : ℕ}
    (hi : i < p.standardRows.length) : p.standardRows[i].relation.Forgives
        (p.standardRows[i].relation.imbalance i (p.columnValue (basicSolution rows))) t ↔
      ∀ c, (p.standardRows[i].relation.slackColumn? i = some c ∨
        p.standardRows[i].relation.artificialColumn? i = some c) →
          p.Admits t (p.columnValue (basicSolution rows) c) c := by
  cases hr : p.standardRows[i].relation with
  | le =>
    simp [Relation.slackColumn?, Relation.artificialColumn?, Relation.Forgives, Relation.imbalance]
  | ge =>
    simp only [Relation.slackColumn?, Relation.artificialColumn?, Relation.Forgives,
      Relation.imbalance, Option.some.injEq, or_imp, forall_and, forall_eq', admits_surplus,
      admits_artificial hi, hr, reduceCtorEq, false_imp_iff, and_true]
    rcases h.surplus_or_artificial_eq_zero hi hr with hzero | hzero
    · simp [hzero, ht]
    · simp [hzero, ht, neg_le]
  | eq =>
    simp [Relation.slackColumn?, Relation.artificialColumn?, Relation.Forgives, Relation.imbalance,
      admits_artificial hi, hr, abs_le, and_comm]

/-- The point that a tableau shows misses the problem by no more than the values of the columns
miss their signs. -/
theorem satisfiedBy_iff_columns (h : p.IsTableau rows) (hp : p.validate = .ok ()) {t : K}
    (ht : 0 ≤ t) : p.satisfiedBy (p.optimumAt rows).coordinates t = true ↔
      ∀ c ∈ p.columns, p.Admits t (p.columnValue (basicSolution rows) c) c := by
  rw [h.coordinates_optimumAt, satisfiedBy_pointOf_iff hp h.basicSolution_solves,
    forall_mem_columns]
  refine and_congr (forall₂_congr fun j hj => ?_)
    (forall₂_congr fun i hi => h.forgives_iff_admits ht hi)
  rw [columnValue, idxOf_decision hj, admits_decision]

/-- The point that a tableau shows misses the problem by no more than the right-hand sides do. -/
theorem satisfiedBy_iff_rows (h : p.IsTableau rows) (hp : p.validate = .ok ()) {t : K}
    (ht : 0 ≤ t) : p.satisfiedBy (p.optimumAt rows).coordinates t = true ↔
      ∀ r ∈ rows, ∀ c ∈ p.columns[r.basic]?, p.Admits t r.rhs c := by
  rw [h.satisfiedBy_iff_columns hp ht]
  constructor
  · intro hall r hr c hc
    obtain ⟨k, hk, rfl⟩ := List.getElem_of_mem hr
    obtain ⟨hlen, rfl⟩ := List.getElem?_eq_some_iff.mp hc
    have hcol := hall _ (List.getElem_mem hlen)
    rwa [columnValue_getElem hlen, h.canonical.basicSolution_basic hk] at hcol
  · intro hall c hc
    by_cases hbasic : ∀ r ∈ rows, r.basic ≠ p.columns.idxOf c
    · rw [columnValue, basicSolution_of_not_basic hbasic]
      exact admits_zero ht c
    · push Not at hbasic
      obtain ⟨r, hr, hrc⟩ := hbasic
      obtain ⟨k, hk, rfl⟩ := List.getElem_of_mem hr
      rw [columnValue, ← hrc, h.canonical.basicSolution_basic hk]
      refine hall _ hr c ?_
      rw [hrc, List.getElem?_eq_getElem (List.idxOf_lt_length_iff.mpr hc), List.getElem_idxOf]
      exact rfl

end IsTableau
end Problem
end LinProg
