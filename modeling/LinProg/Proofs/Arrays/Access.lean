import Mathlib.Data.List.Induction
import Mathlib.Data.List.TakeDrop

/-!
# Access by position

Arrays are read and written by positions, and a position that is out of range is a failure. A loop
over an array fails where one of its steps does. Computations that may fail so are options.
-/
namespace LinProg.Arrays
variable {A B S : Type}

/-- The array with the entry at a position replaced. -/
def store (xs : List A) (i : Nat) (a : A) : Option (List A) :=
  if i < xs.length then some (xs.set i a) else none

/-- The part of an array from one position up to another. -/
def slice (xs : List A) (start stop : Nat) : Option (List A) :=
  if start ≤ stop ∧ stop ≤ xs.length then some ((xs.take stop).drop start) else none

/-- The array with its first entries overwritten, by as many as there are to be written. -/
def copyInto (xs : List A) (n : Nat) (source : List A) : Option (List A) :=
  if n ≤ xs.length ∧ source.length = n then some (source ++ xs.drop n) else none

theorem store_eq {xs : List A} {i : Nat} (h : i < xs.length) (a : A) :
    store xs i a = some (xs.set i a) := if_pos h

theorem store_cons_succ (x : A) (xs : List A) (i : Nat) (a : A) :
    store (x :: xs) (i + 1) a = (store xs i a).map (x :: ·) := by
  simp only [store, List.length_cons, Nat.add_lt_add_iff_right, List.set_cons_succ]
  split <;> rfl

theorem slice_eq {xs : List A} {start stop : Nat} (h : start ≤ stop) (h' : stop ≤ xs.length) :
    slice xs start stop = some ((xs.take stop).drop start) := if_pos ⟨h, h'⟩

theorem slice_tail (x : A) (xs : List A) : slice (x :: xs) 1 (x :: xs).length = some xs := by
  rw [slice_eq (by simp) (Nat.le_refl _)]
  simp

theorem copyInto_eq {xs : List A} {n : Nat} {source : List A} (h : n ≤ xs.length)
    (hsource : source.length = n) : copyInto xs n source = some (source ++ xs.drop n) :=
  if_pos ⟨h, hsource⟩

/-- An array of a length whose first entries are written already; the rest is still at its start. -/
def filled (xs : List A) (n : Nat) (start : A) (k : Nat) : List A :=
  xs.take k ++ List.replicate (n - k) start

section
variable {xs : List A} {n : Nat} {start : A}

@[simp] theorem filled_zero : filled xs n start 0 = List.replicate n start := by simp [filled]

theorem filled_length : filled xs n start xs.length =
    xs ++ List.replicate (n - xs.length) start := by
  simp [filled]

theorem length_filled (h : xs.length ≤ n) {k : Nat} (hk : k ≤ xs.length) :
    (filled xs n start k).length = n := by
  rw [filled, List.length_append, List.length_take, List.length_replicate]
  omega

theorem getElem?_filled (h : xs.length ≤ n) {k : Nat} (hk : k < xs.length) :
    (filled xs n start k)[k]? = some start := by
  have hlen : (xs.take k).length = k := by
    rw [List.length_take]
    omega
  rw [filled, List.getElem?_append_right (by omega), hlen, Nat.sub_self,
    List.getElem?_replicate_of_lt (by omega)]

theorem store_filled (h : xs.length ≤ n) {k : Nat} (hk : k < xs.length) :
    store (filled xs n start k) k xs[k] = some (filled xs n start (k + 1)) := by
  have hlen : (xs.take k).length = k := by
    rw [List.length_take]
    omega
  have hrest : List.replicate (n - k) start = start :: List.replicate (n - (k + 1)) start := by
    rw [← List.replicate_succ]
    congr 1
    omega
  rw [store_eq (by rw [length_filled h (Nat.le_of_lt hk)]; omega), filled, filled, hrest,
    List.take_succ_eq_append_getElem hk, List.set_append_right _ _ (by omega), hlen, Nat.sub_self,
    List.set_cons_zero, List.append_assoc, List.singleton_append]

theorem store_filled_map {f : B → A} {ys : List B} (h : ys.length ≤ n) {k : Nat}
    (hk : k < ys.length) : store (filled (ys.map f) n start k) k (f ys[k]) =
      some (filled (ys.map f) n start (k + 1)) := by
  have hn : (ys.map f).length ≤ n := by rwa [List.length_map]
  have hk' : k < (ys.map f).length := by rwa [List.length_map]
  rw [← store_filled hn hk', List.getElem_map]

end

theorem mapM_eq_map {f : A → Option B} {g : A → B} {xs : List A}
    (h : ∀ x ∈ xs, f x = some (g x)) : xs.mapM f = some (xs.map g) := by
  induction xs with
  | nil => rfl
  | cons x xs ih =>
    have hx := h x List.mem_cons_self
    have hrest := ih fun y hy => h y (List.mem_cons_of_mem x hy)
    simp [List.mapM_cons, hx, hrest]

/-- A loop over numbered entries, whose steps may look up the same position elsewhere. -/
theorem mapM_zipIdx {f : A × Nat → Option B} {xs : List A} {ys : List B} {k : Nat}
    (hlen : xs.length = ys.length)
    (h : ∀ i (hx : i < xs.length) (hy : i < ys.length), f (xs[i], k + i) = some ys[i]) :
    (xs.zipIdx k).mapM f = some ys := by
  induction xs generalizing ys k with
  | nil =>
    cases ys with
    | nil => rfl
    | cons y ys => simp at hlen
  | cons x xs ih =>
    cases ys with
    | nil => simp at hlen
    | cons y ys =>
      have hfirst := h 0 (Nat.succ_pos _) (Nat.succ_pos _)
      have hrest : (xs.zipIdx (k + 1)).mapM f = some ys := by
        apply ih (by simpa using hlen)
        intro i hx hy
        have hi := h (i + 1) (Nat.succ_lt_succ hx) (Nat.succ_lt_succ hy)
        rwa [Nat.add_right_comm, Nat.add_assoc]
      simp only [List.getElem_cons_zero, Nat.add_zero] at hfirst
      simp [List.zipIdx_cons, List.mapM_cons, hfirst, hrest]

theorem mapM_range' {f : Nat → Option B} {ys : List B} {k : Nat}
    (h : ∀ j (hj : j < ys.length), f (k + j) = some ys[j]) :
    (List.range' k ys.length).mapM f = some ys := by
  induction ys generalizing k with
  | nil => rfl
  | cons y ys ih =>
    have hfirst := h 0 (Nat.succ_pos _)
    have hrest : (List.range' (k + 1) ys.length).mapM f = some ys := by
      apply ih
      intro j hj
      have hnext := h (j + 1) (Nat.succ_lt_succ hj)
      rwa [Nat.add_right_comm, Nat.add_assoc]
    rw [Nat.add_zero, List.getElem_cons_zero] at hfirst
    simp [List.range'_succ, List.mapM_cons, hfirst, hrest]

/-- A loop over positions that computes the entries of an array. -/
theorem mapM_range {f : Nat → Option B} {ys : List B}
    (h : ∀ j (hj : j < ys.length), f j = some ys[j]) :
    (List.range ys.length).mapM f = some ys := by
  rw [List.range_eq_range']
  apply mapM_range'
  intro j hj
  rw [Nat.zero_add, h j hj]

/-- A loop over positions is one over the numbered entries. -/
theorem foldlM_range {f : S → A × Nat → S} {xs : List A} {n : Nat} (hn : n ≤ xs.length) (s : S) :
    (List.range n).foldlM (fun s j => (xs[j]?).map fun x => f s (x, j)) s =
      some ((xs.take n).zipIdx.foldl f s) := by
  induction n with
  | zero => simp
  | succ n ih =>
    have hlt : n < xs.length := hn
    rw [List.range_succ, List.foldlM_append, ih (Nat.le_of_lt hlt)]
    rw [List.take_succ_eq_append_getElem hlt, List.zipIdx_append, List.foldl_append]
    simp [hlt, Nat.min_eq_left (Nat.le_of_lt hlt)]

/-- A loop on an image of what is looped over, where each step keeps what the next one relies on. -/
theorem foldlM_eq_foldl {T : Type} {P : T → Prop} (image : T → S) {f : S → A → Option S}
    {g : T → A → T} {xs : List A}
    (h : ∀ t, P t → ∀ x ∈ xs, f (image t) x = some (image (g t x)) ∧ P (g t x)) {t : T} (ht : P t) :
    xs.foldlM f (image t) = some (image (xs.foldl g t)) ∧ P (xs.foldl g t) := by
  induction xs generalizing t with
  | nil => exact ⟨rfl, ht⟩
  | cons x xs ih =>
    obtain ⟨hx, hnext⟩ := h t ht x List.mem_cons_self
    have hrest := ih (fun t ht y hy => h t ht y (List.mem_cons_of_mem x hy)) hnext
    simpa [List.foldlM_cons, hx] using hrest

/-- A loop over numbered entries that passes through a state for each position. -/
theorem foldlM_zipIdx {f : S → A × Nat → Option S} {xs : List A} (state : Nat → S)
    (h : ∀ i (hi : i < xs.length), f (state i) (xs[i], i) = some (state (i + 1))) :
    xs.zipIdx.foldlM f (state 0) = some (state xs.length) := by
  induction xs using List.reverseRecOn with
  | nil => rfl
  | append_singleton xs x ih =>
    have hbefore : xs.zipIdx.foldlM f (state 0) = some (state xs.length) := by
      apply ih
      intro i hi
      have hstep := h i (by simp; omega)
      rwa [List.getElem_append_left hi] at hstep
    have hlast := h xs.length (by simp)
    rw [List.getElem_concat_length rfl] at hlast
    simp [List.zipIdx_append, List.foldlM_append, hbefore, hlast]

theorem anyM_eq_any {f : A → Option Bool} {g : A → Bool} {xs : List A}
    (h : ∀ x ∈ xs, f x = some (g x)) : xs.anyM f = some (xs.any g) := by
  induction xs with
  | nil => rfl
  | cons x xs ih =>
    have hx := h x List.mem_cons_self
    have hrest := ih fun y hy => h y (List.mem_cons_of_mem x hy)
    cases hg : g x <;> simp [List.anyM, hx, hrest, hg]

theorem findM?_range' {f : Nat → Option Bool} {test : A → Bool} {xs : List A} {k : Nat}
    (h : ∀ i (hi : i < xs.length), f (k + i) = some (test xs[i])) :
    (List.range' k xs.length).findM? f = some ((xs.findIdx? test).map (k + ·)) := by
  induction xs generalizing k with
  | nil => rfl
  | cons x xs ih =>
    have hfirst := h 0 (Nat.succ_pos _)
    have hrest : (List.range' (k + 1) xs.length).findM? f =
        some ((xs.findIdx? test).map (k + 1 + ·)) := by
      apply ih
      intro i hi
      have hi := h (i + 1) (Nat.succ_lt_succ hi)
      rwa [Nat.add_right_comm, Nat.add_assoc]
    rw [Nat.add_zero, List.getElem_cons_zero] at hfirst
    rw [List.length_cons, List.range'_succ, List.findM?, hfirst, List.findIdx?_cons]
    cases test x with
    | true => rfl
    | false =>
      simp only [Option.bind_eq_bind, Option.bind_some, hrest, Bool.false_eq_true, if_false,
        Option.map_map, Function.comp_def, Nat.add_right_comm, Nat.add_assoc]

/-- A search for the first position where a test holds. -/
theorem findM?_range {f : Nat → Option Bool} {test : A → Bool} {xs : List A}
    (h : ∀ i (hi : i < xs.length), f i = some (test xs[i])) :
    (List.range xs.length).findM? f = some (xs.findIdx? test) := by
  rw [List.range_eq_range', findM?_range' (k := 0) fun i hi => by rw [Nat.zero_add, h i hi]]
  simp

end LinProg.Arrays
