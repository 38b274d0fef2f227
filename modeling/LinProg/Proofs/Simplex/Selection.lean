import LinProg.Proofs.Scalar.OrderedField
import LinProg.Simplex.Pivot
import Mathlib.Data.List.Induction

/-!
# The rules that choose

The first largest number above a bound and the first least number of a list with gaps. Both are
found in one pass; what has been found after a part of the list is the answer for that part. Of the
numbers no more is assumed than that they can be compared, so that this holds where sums round.
-/
namespace LinProg

/-- Numbers that can be compared: a strict order in which numbers that do not exceed one another
count as equal, and in which the numbers below infinity stand before the others. -/
class Scalar.Ordered (K : Type) [Scalar K] : Prop where
  lt_asymm : ∀ {a b : K}, a < b → ¬ b < a
  lt_or_lt : ∀ {a b : K}, a < b → ∀ c, a < c ∨ c < b
  lt_of_belowTop : ∀ {a b : K}, Scalar.belowTop a = true → Scalar.belowTop b = false → a < b

instance {K : Type} [Field K] [LinearOrder K] : Scalar.Ordered K where
  lt_asymm h := not_lt_of_gt h
  lt_or_lt {a _} h c := (lt_or_ge a c).imp_right fun hc => hc.trans_lt h
  lt_of_belowTop _ h := Bool.noConfusion h

/-- The number at a position exceeds a bound, no other exceeds it, and those before it are less. -/
structure IsFirstLargest {K : Type} [Scalar K] (bound : K) (xs : List K) (i : ℕ) (v : K) :
    Prop where
  getElem?_eq : xs[i]? = some v
  above : bound < v
  unbeaten : ∀ (j : ℕ) (w : K), xs[j]? = some w → ¬ v < w
  first : ∀ (j : ℕ) (w : K), xs[j]? = some w → j < i → w < v

/-- No number is less than the one at a position, and those before it exceed it. -/
structure IsFirstLeast {K : Type} [Scalar K] (xs : List (Option K)) (i : ℕ) (v : K) : Prop where
  getElem?_eq : xs[i]? = some (some v)
  unbeaten : ∀ (j : ℕ) (w : K), xs[j]? = some (some w) → ¬ w < v
  first : ∀ (j : ℕ) (w : K), xs[j]? = some (some w) → j < i → v < w

section
variable {K : Type} [Scalar K]

/-- What a pass for the largest number may hold after the given numbers. -/
def LeadsAbove (bound : K) (xs : List K) : Option (ℕ × K) → Prop
  | none => ∀ x ∈ xs, ¬ bound < x
  | some (i, v) => IsFirstLargest bound xs i v

/-- What a pass for the least number may hold after the given entries. -/
def LeadsBelow (xs : List (Option K)) : Option (ℕ × K) → Prop
  | none => ∀ x, some x ∈ xs → Scalar.belowTop x = false
  | some (i, v) => IsFirstLeast xs i v

theorem getElem?_concat_cases {A : Type} {xs : List A} {x w : A} {j : ℕ}
    (h : (xs ++ [x])[j]? = some w) : xs[j]? = some w ∨ j = xs.length ∧ w = x := by
  rcases lt_trichotomy j xs.length with hj | hj | hj
  · left
    rwa [List.getElem?_append_left hj] at h
  · right
    subst hj
    simpa [eq_comm] using h
  · rw [List.getElem?_eq_none (by simp; omega)] at h
    exact absurd h (by simp)

variable [Scalar.Ordered K]

theorem not_lt_self (a : K) : ¬ a < a := fun h => Scalar.Ordered.lt_asymm h h

/-- What exceeds a number exceeds what does not exceed that number. -/
theorem lt_of_not_lt_of_lt {a b c : K} (hba : ¬ b < a) (hbc : b < c) : a < c :=
  (Scalar.Ordered.lt_or_lt hbc a).resolve_left hba

theorem lt_of_lt_of_not_lt {a b c : K} (hab : a < b) (hcb : ¬ c < b) : a < c :=
  (Scalar.Ordered.lt_or_lt hab c).resolve_right hcb

namespace IsFirstLargest
variable {bound v x : K} {xs : List K} {i : ℕ}

omit [Scalar.Ordered K] in
theorem concat (h : IsFirstLargest bound xs i v) (hx : ¬ v < x) :
    IsFirstLargest bound (xs ++ [x]) i v := by
  have hlen : i < xs.length := (List.getElem?_eq_some_iff.mp h.getElem?_eq).1
  refine ⟨?_, h.above, fun j w hw => ?_, fun j w hw hj => ?_⟩
  · rw [List.getElem?_append_left hlen]
    exact h.getElem?_eq
  · rcases getElem?_concat_cases hw with hw | ⟨_, rfl⟩
    · exact h.unbeaten j w hw
    · exact hx
  · rw [List.getElem?_append_left (hj.trans hlen)] at hw
    exact h.first j w hw hj

/-- A number that exceeds all before it is the first largest. -/
theorem of_last (hbound : bound < x) (hall : ∀ w ∈ xs, w < x) :
    IsFirstLargest bound (xs ++ [x]) xs.length x := by
  refine ⟨by simp, hbound, fun j w hw => ?_, fun j w hw hj => ?_⟩
  · rcases getElem?_concat_cases hw with hw | ⟨_, rfl⟩
    · exact Scalar.Ordered.lt_asymm (hall w (List.mem_of_getElem? hw))
    · exact not_lt_self w
  · rw [List.getElem?_append_left hj] at hw
    exact hall w (List.mem_of_getElem? hw)

end IsFirstLargest

namespace IsFirstLeast
variable {v x : K} {xs : List (Option K)} {i : ℕ}

omit [Scalar.Ordered K] in
theorem concat (h : IsFirstLeast xs i v) {last : Option K} (hlast : ∀ x, last = some x → ¬ x < v) :
    IsFirstLeast (xs ++ [last]) i v := by
  have hlen : i < xs.length := (List.getElem?_eq_some_iff.mp h.getElem?_eq).1
  refine ⟨?_, fun j w hw => ?_, fun j w hw hj => ?_⟩
  · rw [List.getElem?_append_left hlen]
    exact h.getElem?_eq
  · rcases getElem?_concat_cases hw with hw | ⟨_, hw⟩
    · exact h.unbeaten j w hw
    · exact hlast w hw.symm
  · rw [List.getElem?_append_left (hj.trans hlen)] at hw
    exact h.first j w hw hj

theorem of_last (hall : ∀ w, some w ∈ xs → x < w) :
    IsFirstLeast (xs ++ [some x]) xs.length x := by
  refine ⟨by simp, fun j w hw => ?_, fun j w hw hj => ?_⟩
  · rcases getElem?_concat_cases hw with hw | ⟨_, hw⟩
    · exact Scalar.Ordered.lt_asymm (hall w (List.mem_of_getElem? hw))
    · rw [Option.some.inj hw]
      exact not_lt_self x
  · rw [List.getElem?_append_left hj] at hw
    exact hall w (List.mem_of_getElem? hw)

end IsFirstLeast

theorem LeadsAbove.concat {bound : K} {xs : List K} {best : Option (ℕ × K)}
    (h : LeadsAbove bound xs best) (x : K) :
    LeadsAbove bound (xs ++ [x]) (largestStep bound best (x, xs.length)) := by
  cases best with
  | none =>
    rw [largestStep, Option.elim_none]
    split_ifs with hx
    · exact .of_last hx fun w hw => lt_of_not_lt_of_lt (h w hw) hx
    · intro w hw
      rcases List.mem_append.mp hw with hw | hw
      · exact h w hw
      · rw [List.mem_singleton.mp hw]
        exact hx
  | some best =>
    obtain ⟨i, v⟩ := best
    have h : IsFirstLargest bound xs i v := h
    rw [largestStep, Option.elim_some]
    split_ifs with hx
    · refine .of_last ?_ fun w hw => ?_
      · exact lt_of_lt_of_not_lt h.above (Scalar.Ordered.lt_asymm hx)
      · obtain ⟨j, hj⟩ := List.mem_iff_getElem?.mp hw
        exact lt_of_not_lt_of_lt (h.unbeaten j w hj) hx
    · exact h.concat hx

theorem LeadsBelow.concat {xs : List (Option K)} {best : Option (ℕ × K)}
    (h : LeadsBelow xs best) (x : Option K) :
    LeadsBelow (xs ++ [x]) (leastStep best (x, xs.length)) := by
  cases best with
  | none =>
    cases x with
    | none =>
      intro w hw
      exact h w (by simpa using hw)
    | some x =>
      rw [leastStep]
      split_ifs with hx
      · exact .of_last fun w hw => Scalar.Ordered.lt_of_belowTop hx (h w hw)
      · intro w hw
        rcases List.mem_append.mp hw with hw | hw
        · exact h w hw
        · rw [Option.some.inj (List.mem_singleton.mp hw)]
          exact Bool.eq_false_iff.mpr hx
  | some best =>
    obtain ⟨i, v⟩ := best
    have h : IsFirstLeast xs i v := h
    cases x with
    | none => exact h.concat fun x hx => by cases hx
    | some x =>
      rw [leastStep]
      split_ifs with hx
      · refine .of_last fun w hw => ?_
        obtain ⟨j, hj⟩ := List.mem_iff_getElem?.mp hw
        exact lt_of_lt_of_not_lt hx (h.unbeaten j w hj)
      · refine h.concat fun y hy => ?_
        rwa [← Option.some.inj hy]

theorem leadsAbove_foldl (bound : K) (xs : List K) :
    LeadsAbove bound xs (xs.zipIdx.foldl (largestStep bound) none) := by
  induction xs using List.reverseRecOn with
  | nil => intro x hx; simp at hx
  | append_singleton xs x ih =>
    rw [List.zipIdx_append, List.foldl_append]
    simpa using ih.concat x

theorem leadsBelow_foldl (xs : List (Option K)) :
    LeadsBelow xs (xs.zipIdx.foldl leastStep none) := by
  induction xs using List.reverseRecOn with
  | nil => intro x hx; simp at hx
  | append_singleton xs x ih =>
    rw [List.zipIdx_append, List.foldl_append]
    simpa using ih.concat x

theorem not_lt_of_firstLargest_eq_none {bound : K} {xs : List K}
    (h : firstLargest bound xs = none) : ∀ x ∈ xs, ¬ bound < x := by
  have hlead := leadsAbove_foldl bound xs
  rw [firstLargest, Option.map_eq_none_iff] at h
  rwa [h] at hlead

/-- The position that is chosen is that of the first largest number above the bound. -/
theorem exists_isFirstLargest {bound : K} {xs : List K} {i : ℕ}
    (h : firstLargest bound xs = some i) : ∃ v, IsFirstLargest bound xs i v := by
  have hlead := leadsAbove_foldl bound xs
  obtain ⟨⟨k, v⟩, hbest, rfl⟩ := Option.map_eq_some_iff.mp h
  rw [hbest] at hlead
  exact ⟨v, hlead⟩

theorem exists_isFirstLeast {xs : List (Option K)} {i : ℕ} (h : firstLeast xs = some i) :
    ∃ v, IsFirstLeast xs i v := by
  have hlead := leadsBelow_foldl xs
  obtain ⟨⟨k, v⟩, hbest, rfl⟩ := Option.map_eq_some_iff.mp h
  rw [hbest] at hlead
  exact ⟨v, hlead⟩

end

section
variable {K : Type} [Field K] [LinearOrder K]

theorem firstLargest_eq_none {bound : K} {xs : List K} (h : firstLargest bound xs = none) :
    ∀ x ∈ xs, x ≤ bound :=
  fun x hx => not_lt.mp (not_lt_of_firstLargest_eq_none h x hx)

/-- The largest number exceeds the bound, and those before it are smaller. -/
theorem firstLargest_eq_some {bound : K} {xs : List K} {i : ℕ}
    (h : firstLargest bound xs = some i) : ∃ v, xs[i]? = some v ∧ bound < v ∧
      ∀ j w, xs[j]? = some w → w ≤ v ∧ (j < i → w < v) := by
  obtain ⟨v, hget, habove, hunbeaten, hfirst⟩ := exists_isFirstLargest h
  exact ⟨v, hget, habove, fun j w hw => ⟨not_lt.mp (hunbeaten j w hw), hfirst j w hw⟩⟩

theorem firstLeast_eq_none {xs : List (Option K)} (h : firstLeast xs = none) :
    ∀ x ∈ xs, x = none := by
  have hlead := leadsBelow_foldl xs
  rw [firstLeast, Option.map_eq_none_iff] at h
  rw [h] at hlead
  intro x hx
  cases x with
  | none => rfl
  | some x => cases hlead x hx

theorem firstLeast_eq_some {xs : List (Option K)} {i : ℕ} (h : firstLeast xs = some i) :
    ∃ v, xs[i]? = some (some v) ∧
      ∀ j w, xs[j]? = some (some w) → v ≤ w ∧ (j < i → v < w) := by
  obtain ⟨v, hget, hunbeaten, hfirst⟩ := exists_isFirstLeast h
  exact ⟨v, hget, fun j w hw => ⟨not_lt.mp (hunbeaten j w hw), hfirst j w hw⟩⟩

end
end LinProg
