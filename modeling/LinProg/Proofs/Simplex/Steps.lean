import LinProg.Simplex.Run
import Mathlib.Tactic.Common

/-!
# A phase pivot by pivot

The limit on the pivots of a phase only cuts it short. What the phase does is a sequence of tableaus
that the limit has no part in, and this sequence comes to an end or it does not. Nothing is assumed
of the numbers.
-/
namespace LinProg
variable {K : Type} [Scalar K]

namespace Stage

/-- The rows after the next pivot, unless the phase ends. -/
def next? (s : Stage K) (rows : List (Row K)) : Option (List (Row K)) :=
  (s.entering? rows).bind fun column =>
    (s.choose rows column).leaving.map fun row => pivot rows row column

/-- The rows after a number of pivots, unless the phase ends before. -/
def after (s : Stage K) (rows : List (Row K)) : Nat → Option (List (Row K))
  | 0 => some rows
  | k + 1 => (s.after rows k).bind s.next?

theorem next?_eq_some {s : Stage K} {rows later : List (Row K)} (h : s.next? rows = some later) :
    ∃ column row, s.entering? rows = some column ∧ (s.choose rows column).leaving = some row ∧
      later = pivot rows row column := by
  obtain ⟨column, hcolumn, h⟩ := Option.bind_eq_some_iff.mp h
  obtain ⟨row, hrow, h⟩ := Option.map_eq_some_iff.mp h
  exact ⟨column, row, hcolumn, hrow, h.symm⟩

theorem after_add (s : Stage K) (rows : List (Row K)) (k l : Nat) :
    s.after rows (k + l) = (s.after rows k).bind fun here => s.after here l := by
  induction l with
  | zero => simp [after]
  | succ l ih =>
    rw [← Nat.add_assoc, after, ih, Option.bind_assoc]
    rfl

theorem after_succ (s : Stage K) (rows : List (Row K)) (k : Nat) :
    s.after rows (k + 1) = (s.next? rows).bind fun here => s.after here k := by
  rw [Nat.add_comm, after_add]
  simp [after]

theorem exists_after_of_le {s : Stage K} {rows later : List (Row K)} {k l : Nat}
    (h : s.after rows l = some later) (hkl : k ≤ l) : ∃ here, s.after rows k = some here := by
  obtain ⟨d, rfl⟩ := Nat.exists_eq_add_of_le hkl
  rw [after_add] at h
  obtain ⟨here, hhere, _⟩ := Option.bind_eq_some_iff.mp h
  exact ⟨here, hhere⟩

/-- A property that every pivot of a phase keeps holds of all tableaus that it comes to. -/
theorem after_induction {P : List (Row K) → Prop} {s : Stage K}
    (hstep : ∀ rows column row, P rows → s.entering? rows = some column →
      (s.choose rows column).leaving = some row → P (pivot rows row column))
    {rows here : List (Row K)} (h : P rows) {k : Nat} (hk : s.after rows k = some here) :
    P here := by
  induction k generalizing here with
  | zero => exact Option.some.inj hk ▸ h
  | succ k ih =>
    obtain ⟨before, hbefore, hnext⟩ := Option.bind_eq_some_iff.mp hk
    obtain ⟨column, row, hcolumn, hrow, rfl⟩ := next?_eq_some hnext
    exact hstep before column row (ih hbefore) hcolumn hrow

variable {s : Stage K} {rows : List (Row K)} {column row : Nat}

theorem run_of_optimal (h : s.entering? rows = none) (left made : Nat) :
    s.run left made rows = ⟨[s.snapshot made rows none], rows, made, .optimal⟩ := by
  unfold run
  simp [h]

theorem run_of_unbounded (h : s.entering? rows = some column)
    (hleaving : (s.choose rows column).leaving = none) (left made : Nat) :
    s.run (left + 1) made rows =
      ⟨[s.snapshot made rows (some (s.choose rows column))], rows, made, .unbounded⟩ := by
  unfold run
  simp [h, hleaving]

theorem run_of_pivot (h : s.entering? rows = some column)
    (hleaving : (s.choose rows column).leaving = some row) (left made : Nat) :
    s.run (left + 1) made rows =
      let rest := s.run left (made + 1) (pivot rows row column)
      { rest with
        trace := s.snapshot made rows (some (s.choose rows column)) :: rest.trace } := by
  rw [run]
  simp [h, hleaving]

/-- The limit is to blame if the phase would go on after as many pivots. -/
theorem exhausted_iff (s : Stage K) (left made : Nat) (rows : List (Row K)) :
    (s.run left made rows).ending = .exhausted ↔
      ∃ last column, s.after rows left = some last ∧ s.entering? last = some column := by
  fun_induction s.run left made rows with
  | case1 left made rows hnone =>
    have hnext : s.next? rows = none := by simp [next?, hnone]
    cases left with
    | zero => simp [after, hnone]
    | succ left => simp [after_succ, hnext]
  | case2 made rows column hcolumn => simp [after, hcolumn]
  | case3 made rows column hcolumn left choice visited hleaving =>
    have hnone : (s.choose rows column).leaving = none := hleaving
    have hnext : s.next? rows = none := by simp [next?, hcolumn, hnone]
    simp [after_succ, hnext]
  | case4 made rows column hcolumn left choice visited row hleaving rest ih =>
    have hsome : (s.choose rows column).leaving = some row := hleaving
    have hnext : s.next? rows = some (pivot rows row column) := by simp [next?, hcolumn, hsome]
    simpa [after_succ, hnext] using ih

/-- More pivots change nothing once the limit is not to blame. -/
theorem run_add {left made : Nat} (h : (s.run left made rows).ending ≠ .exhausted) (more : Nat) :
    s.run (left + more) made rows = s.run left made rows := by
  fun_induction s.run left made rows with
  | case1 left made rows hnone => exact run_of_optimal hnone _ _
  | case2 => exact absurd rfl h
  | case3 made rows column hcolumn left choice visited hleaving =>
    rw [Nat.succ_add]
    exact run_of_unbounded hcolumn hleaving _ _
  | case4 made rows column hcolumn left choice visited row hleaving rest ih =>
    rw [Nat.succ_add, Nat.succ_eq_add_one, run_of_pivot hcolumn hleaving, ih h]

theorem run_of_le {a b made : Nat} (h : (s.run a made rows).ending ≠ .exhausted) (hab : a ≤ b) :
    s.run b made rows = s.run a made rows := by
  obtain ⟨more, rfl⟩ := Nat.exists_eq_add_of_le hab
  exact run_add h more

/-- A phase that the limit does not end is the same under every such limit. -/
theorem run_eq_run {a b made : Nat} (ha : (s.run a made rows).ending ≠ .exhausted)
    (hb : (s.run b made rows).ending ≠ .exhausted) : s.run a made rows = s.run b made rows := by
  rcases Nat.le_total a b with hab | hba
  · exact (run_of_le ha hab).symm
  · exact run_of_le hb hba

theorem pivots_le (s : Stage K) (left made : Nat) (rows : List (Row K)) :
    (s.run left made rows).pivots ≤ made + left := by
  fun_induction s.run left made rows with
  | case1 => exact Nat.le_add_right _ _
  | case2 => exact Nat.le_refl _
  | case3 => exact Nat.le_add_right _ _
  | case4 _ _ _ _ _ _ _ _ _ _ ih =>
    rw [Nat.add_right_comm] at ih
    exact ih

/-- A phase records the tableau after each number of pivots that the limit allows. -/
theorem run_trace_getElem? {left k : Nat} (made : Nat) {here : List (Row K)}
    (hk : s.after rows k = some here) (hcolumn : s.entering? here = some column) (hlt : k < left) :
    (s.run left made rows).trace[k]? =
      some (s.snapshot (made + k) here (some (s.choose here column))) := by
  induction k generalizing left made rows with
  | zero =>
    have hhere : rows = here := Option.some.inj hk
    subst hhere
    cases left with
    | zero => exact absurd hlt (Nat.lt_irrefl 0)
    | succ left =>
      cases hleaving : (s.choose rows column).leaving with
      | none => simp [run_of_unbounded hcolumn hleaving]
      | some row => simp [run_of_pivot hcolumn hleaving]
  | succ k ih =>
    rw [after_succ] at hk
    obtain ⟨later, hnext, hlater⟩ := Option.bind_eq_some_iff.mp hk
    obtain ⟨entering, leaving, hentering, hleaving, rfl⟩ := next?_eq_some hnext
    cases left with
    | zero => exact absurd hlt (Nat.not_lt_zero _)
    | succ left =>
      have hrest := ih (made + 1) hlater (Nat.lt_of_succ_lt_succ hlt)
      rw [run_of_pivot hentering hleaving, List.getElem?_cons_succ, hrest, Nat.add_right_comm,
        Nat.add_assoc]

/-- The record of a tableau with what the stage chooses there. -/
def visit (s : Stage K) (made : ℕ) (rows : List (Row K)) : Snapshot K :=
  s.snapshot made rows ((s.entering? rows).map (s.choose rows))

/-- A phase records the tableau where it starts unless the limit ends it there, and nothing else or
what it records from the next tableau on. -/
theorem run_trace_cases (s : Stage K) (left made : ℕ) (rows : List (Row K)) :
    (s.run left made rows).trace = [] ∨ (s.run left made rows).trace = [s.visit made rows] ∨
      ∃ fewer later, left = fewer + 1 ∧ s.next? rows = some later ∧
        (s.run left made rows).trace =
          s.visit made rows :: (s.run fewer (made + 1) later).trace := by
  cases hentering : s.entering? rows with
  | none => simp [run_of_optimal hentering, visit, hentering]
  | some column =>
    cases left with
    | zero =>
      left
      rw [run]
      simp [hentering]
    | succ left =>
      cases hleaving : (s.choose rows column).leaving with
      | none => simp [run_of_unbounded hentering hleaving, visit, hentering]
      | some row =>
        refine .inr (.inr ⟨left, pivot rows row column, rfl, ?_, ?_⟩)
        · simp [next?, hentering, hleaving]
        · simp [run_of_pivot hentering hleaving, visit, hentering]

/-- What a phase records at a place is the tableau after as many pivots. -/
theorem run_trace_eq_some {left made k : ℕ} {t : Snapshot K}
    (h : (s.run left made rows).trace[k]? = some t) :
    ∃ here, s.after rows k = some here ∧ k ≤ left ∧ t = s.visit (made + k) here := by
  induction k generalizing left made rows with
  | zero =>
    obtain htrace | htrace | ⟨fewer, later, _, _, htrace⟩ := s.run_trace_cases left made rows <;>
      rw [htrace] at h
    · cases h
    all_goals
      cases h
      exact ⟨rows, rfl, Nat.zero_le left, rfl⟩
  | succ k ih =>
    obtain htrace | htrace | ⟨fewer, later, rfl, hnext, htrace⟩ :=
      s.run_trace_cases left made rows <;> rw [htrace] at h
    · cases h
    · cases h
    · obtain ⟨here, hhere, hle, rfl⟩ := ih h
      refine ⟨here, ?_, Nat.succ_le_succ hle, ?_⟩
      · rw [after_succ, hnext]
        exact hhere
      · rw [Nat.add_right_comm, Nat.add_assoc]

/-- Whatever a phase records is a tableau with what the stage chooses there. -/
theorem exists_visit_of_mem {left made : ℕ} {t : Snapshot K}
    (ht : t ∈ (s.run left made rows).trace) : ∃ k here, t = s.visit k here := by
  obtain ⟨k, hk⟩ := List.mem_iff_getElem?.mp ht
  obtain ⟨here, _, _, heq⟩ := run_trace_eq_some hk
  exact ⟨made + k, here, heq⟩

/-- A phase that comes back to a tableau goes on for ever. -/
theorem exists_after_of_returns {i j : Nat} {here : List (Row K)} (hij : i < j)
    (hi : s.after rows i = some here) (hj : s.after rows j = some here) (k : Nat) :
    ∃ later, s.after rows k = some later := by
  induction k using Nat.strongRecOn with
  | ind k ih =>
    rcases Nat.lt_or_ge j k with hk | hk
    · -- what comes after the second visit came after the first one
      obtain ⟨d, rfl⟩ := Nat.exists_eq_add_of_lt hk
      obtain ⟨later, hlater⟩ := ih (i + (d + 1)) (by omega)
      refine ⟨later, ?_⟩
      rw [after_add, hi] at hlater
      rw [Nat.add_assoc, after_add, hj]
      exact hlater
    · exact exists_after_of_le hj hk

theorem exhausted_of_returns {i j : Nat} {here : List (Row K)} (hij : i < j)
    (hi : s.after rows i = some here) (hj : s.after rows j = some here) (left made : Nat) :
    (s.run left made rows).ending = .exhausted := by
  obtain ⟨later, hlater⟩ := exists_after_of_returns hij hi hj (left + 1)
  obtain ⟨last, hlast, hnext⟩ := Option.bind_eq_some_iff.mp hlater
  obtain ⟨column, _, hcolumn, _⟩ := next?_eq_some hnext
  exact (exhausted_iff s left made rows).mpr ⟨last, column, hlast, hcolumn⟩

end Stage
end LinProg
