import LinProg.Simplex.Tableau

/-!
# Pivots

One step of the method. The costs are priced out against the basis, the column with the largest
reduced cost enters, the row with the least ratio leaves, and the equations are solved for the
entering column. Ties go to the first.
-/

namespace LinProg

variable {K : Type} [Scalar K]

/-- The better of the best so far and a numbered candidate; only what exceeds the bound counts. -/
def largestStep (bound : K) (best : Option (Nat × K)) : K × Nat → Option (Nat × K)
  | (x, i) => if best.elim bound Prod.snd < x then some (i, x) else best

/-- The first position of the largest number above a bound. -/
def firstLargest (bound : K) (xs : List K) : Option Nat :=
  (xs.zipIdx.foldl (largestStep bound) none).map Prod.fst

/-- The lesser of the best so far and a numbered candidate, if there is one. -/
def leastStep (best : Option (Nat × K)) : Option K × Nat → Option (Nat × K)
  | (none, _) => best
  | (some x, i) =>
      match best with
      -- the first to lead must lie below infinity
      | none => if Scalar.belowTop x then some (i, x) else none
      | some (_, least) => if x < least then some (i, x) else best

/-- The first position of the least number of a list with gaps. -/
def firstLeast (xs : List (Option K)) : Option Nat :=
  (xs.zipIdx.foldl leastStep none).map Prod.fst

namespace Row

/-- The row solved for a column. -/
def solvedFor (r : Row K) (column : Nat) : Row K :=
  let pivot := r.entry column
  { basic := column, entries := r.entries.map (· / pivot), rhs := r.rhs / pivot }

/-- The row after a column is eliminated by means of a row that is solved for it. -/
def eliminate (r solved : Row K) (column : Nat) : Row K :=
  let factor := r.entry column
  if factor == 0 then r
  else
    { r with
      entries := List.zipWith (fun v p => v - factor * p) r.entries solved.entries
      rhs := r.rhs - factor * solved.rhs }

/-- The cost of the basic column. -/
def basicCost (costs : List K) (r : Row K) : K := costs[r.basic]?.getD 0

/-- The ratio that bounds how far a column can grow before the row forbids it. -/
def ratio? (tolerance : K) (column : Nat) (r : Row K) : Option K :=
  if tolerance < r.entry column then some (r.rhs / r.entry column) else none

end Row

/-- The rows after a pivot on the row and the column at the given positions. -/
def pivot (rows : List (Row K)) (row column : Nat) : List (Row K) :=
  match rows[row]? with
  | none => rows
  | some leaving =>
      let solved := leaving.solvedFor column
      rows.mapIdx fun i r => if i = row then solved else r.eliminate solved column

/-- The value of the basic solution under the costs. -/
def basicValue (costs : List K) (rows : List (Row K)) : K :=
  Scalar.sum (rows.map fun r => r.basicCost costs * r.rhs)

/-- The cost of each column less what the basis earns in its place. -/
def reducedCosts (costs : List K) (rows : List (Row K)) : List K :=
  costs.mapIdx fun j cost =>
    cost - Scalar.sum (rows.map fun r => r.basicCost costs * r.entry j)

/-- The values of the first `n` columns in the basic solution. -/
def basicPoint (n : Nat) (rows : List (Row K)) : List K :=
  rows.foldl (fun values r => values.set r.basic r.rhs) (List.replicate n 0)

@[simp] theorem length_pivot (rows : List (Row K)) (row column : Nat) :
    (pivot rows row column).length = rows.length := by
  unfold pivot
  split <;> simp

@[simp] theorem length_reducedCosts (costs : List K) (rows : List (Row K)) :
    (reducedCosts costs rows).length = costs.length := by
  simp [reducedCosts]

@[simp] theorem length_basicPoint (n : Nat) (rows : List (Row K)) :
    (basicPoint n rows).length = n := by
  -- setting an entry keeps the length, whatever the row says
  suffices h : ∀ values : List K,
      (rows.foldl (fun values r => values.set r.basic r.rhs) values).length =
        values.length by
    simp [basicPoint, h]
  induction rows with
  | nil => simp
  | cons r rows ih => intro values; simp [ih]

end LinProg
