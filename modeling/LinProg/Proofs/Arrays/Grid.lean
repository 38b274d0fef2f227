import LinProg.Proofs.Arrays.Access
import LinProg.Solver.Basic

/-!
# The simplex method on one rectangle of numbers

The tableau as one rectangle whose first row holds the reduced costs and whose last column holds the
right-hand sides. All that the method does with it is done by position, and a position out of range
is a failure.
-/
namespace LinProg.Arrays

/-- A tableau by positions: row `i` of the constraints is row `i + 1` of the data. -/
structure Grid (K : Type) where
  data : List (List K)
  /-- The basic column of each row. -/
  basis : List Nat
  costs : List K
  columns : List Column
  size : Nat
  artificialStart : Nat

variable {K : Type} [Scalar K]

/-- A grid that is being filled, with the next auxiliary columns to be used. -/
structure Filling (K : Type) where
  data : List (List K)
  basis : List Nat
  slack : Nat
  artificial : Nat

/-- The row of a constraint, given zeros, with its basic column and the next free columns. -/
def fillRow (size width slack artificial : Nat) (c : Constraint K) (zeros : List K) :
    Option (List K × Nat × Nat × Nat) := do
  let row ← copyInto zeros size c.coefficients
  let row ← store row width c.rhs
  match c.relation with
  | .le => do
      let row ← store row slack 1
      return (row, slack, slack + 1, artificial)
  | .ge => do
      let row ← store row slack (-1)
      let row ← store row artificial 1
      return (row, artificial, slack + 1, artificial + 1)
  | .eq => do
      let row ← store row artificial 1
      return (row, artificial, slack, artificial + 1)

def placeRow (size width : Nat) (f : Filling K) : Constraint K × Nat → Option (Filling K)
  | (c, i) => do
      let zeros ← f.data[i + 1]?
      let (row, basic, slack, artificial) ← fillRow size width f.slack f.artificial c zeros
      let data ← store f.data (i + 1) row
      let basis ← store f.basis i basic
      return ⟨data, basis, slack, artificial⟩

def build (p : Problem K) : Option (Grid K) := do
  let width := p.columns.length
  let rows := p.constraints.length
  let filled ← p.standardRows.zipIdx.foldlM (placeRow p.size width)
    ⟨List.replicate (rows + 1) (List.replicate (width + 1) 0), List.replicate rows 0, p.size,
      p.realColumns.length⟩
  return ⟨filled.data, filled.basis, List.replicate width 0, p.columns, p.size,
    p.realColumns.length⟩

/-- The costs of the second phase, written over zeros. -/
def phaseTwoCosts (p : Problem K) (g : Grid K) : Option (List K) :=
  p.maximized.zipIdx.foldlM (fun costs (c, j) => store costs j c)
    (List.replicate g.columns.length 0)

namespace Grid

def phaseOneCosts (g : Grid K) : List K :=
  g.columns.map fun column => if column.isArtificial then -1 else 0

def hasArtificial (g : Grid K) : Bool := g.artificialStart < g.columns.length

/-- The entry at a position of the data. -/
def entry (g : Grid K) (row column : Nat) : Option K := do
  let entries ← g.data[row]?
  entries[column]?

def basisCosts (g : Grid K) : Option (List K) := g.basis.mapM fun b => g.costs[b]?

/-- The sum over the rows of the basic cost times the entry in a column. -/
def weighted (g : Grid K) (costs : List K) (column : Nat) : Option K := do
  let products ← costs.zipIdx.mapM fun (cost, i) => (g.entry (i + 1) column).map (cost * ·)
  return Scalar.sum products

/-- The cell of the first row in a column: a reduced cost, or the value in the last column. -/
def price (g : Grid K) (costs : List K) (column : Nat) : Option K := do
  let sum ← g.weighted costs column
  if column < g.columns.length then (g.costs[column]?).map (· - sum) else some sum

/-- The grid with its first row computed from the others. -/
def refresh (g : Grid K) : Option (Grid K) := do
  let costs ← g.basisCosts
  let top ← (List.range (g.columns.length + 1)).mapM (g.price costs)
  let data ← store g.data 0 top
  return { g with data }

def objectiveValue (g : Grid K) : Option K := g.entry 0 g.columns.length

/-- The column that enters. -/
def entering (g : Grid K) (eligible : Nat) (tolerance : K) : Option (Option Nat) := do
  let best ← (List.range (min eligible g.columns.length)).foldlM
    (fun best j => (g.entry 0 j).map fun cost => largestStep tolerance best (cost, j)) none
  return best.map Prod.fst

/-- The ratio that a row gives. -/
def ratioOf (width column : Nat) (tolerance : K) (row : List K) : Option (Option K) := do
  let entry ← row[column]?
  if tolerance < entry then (row[width]?).map fun rhs => some (rhs / entry) else some none

def ratios (g : Grid K) (column : Nat) (tolerance : K) : Option (List (Option K)) := do
  let rows ← slice g.data 1 g.data.length
  rows.mapM (ratioOf g.columns.length column tolerance)

/-- A numbered row after a pivot on the given row, which is solved already. -/
def eliminate (row column : Nat) (solved : List K) : List K × Nat → Option (List K)
  | (current, i) =>
      if i = 0 ∨ i = row + 1 then some current
      else (current[column]?).map fun factor =>
        if factor == 0 then current else List.zipWith (fun v p => v - factor * p) current solved

def pivot (g : Grid K) (row column : Nat) : Option (Grid K) := do
  let basis ← store g.basis row column
  let leaving ← g.data[row + 1]?
  let element ← leaving[column]?
  let solved := leaving.map (· / element)
  let data ← store g.data (row + 1) solved
  let data ← data.zipIdx.mapM (eliminate row column solved)
  return { g with data, basis }

/-- Whether an entry is far enough from zero to pivot on it. -/
def counts (g : Grid K) (tolerance : K) (row column : Nat) : Option Bool :=
  (g.entry (row + 1) column).map fun entry => decide (tolerance < Scalar.abs entry)

/-- A pivot whose columns are looked up by name for the log. -/
def loggedPivot (g : Grid K) (row column : Nat) : Option (Grid K) := do
  let _ ← g.columns[column]?
  let basic ← g.basis[row]?
  let _ ← g.columns[basic]?
  g.pivot row column

/-- One step of driving out artificial columns. -/
def replaceArtificial (tolerance : K) (g : Grid K) (row : Nat) : Option (Grid K) := do
  let basic ← g.basis[row]?
  if basic < g.artificialStart then some g
  else
    match ← (List.range g.artificialStart).findM? (g.counts tolerance row) with
    | none => some g
    | some column => g.loggedPivot row column

def driveOut (g : Grid K) (tolerance : K) : Option (Grid K) :=
  (List.range g.basis.length).foldlM (replaceArtificial tolerance) g

/-- The coordinates after the one of a numbered basic column is set. -/
def setCoordinate (g : Grid K) (values : List K) : Nat × Nat → Option (List K)
  | (basic, i) =>
      if basic < g.size then (g.entry (i + 1) g.columns.length).bind (store values basic)
      else some values

/-- The values of the variables in the basic solution. -/
def coordinates (g : Grid K) : Option (List K) :=
  g.basis.zipIdx.foldlM g.setCoordinate (List.replicate g.size 0)

end Grid

/-- A choice with the entry at which the pivot is made. -/
structure Pick (K : Type) where
  entering : Nat
  leaving : Option Nat
  element : Option K
  ratios : List (Option K)

/-- What is kept of a grid for the listing. -/
structure Record (K : Type) where
  phase : Phase
  iteration : Nat
  rows : List (List K)
  basis : List Nat
  basisCosts : List K
  costs : List K
  reduced : List K
  value : K
  pick : Option (Pick K)

/-- One phase: what it records, where it ends, and the pivots made by then. -/
structure Passage (K : Type) where
  trace : List (Record K)
  grid : Grid K
  pivots : Nat
  ending : Ending

namespace Grid

def record (g : Grid K) (phase : Phase) (iteration : Nat) (pick : Option (Pick K)) :
    Option (Record K) := do
  let rows ← slice g.data 1 g.data.length
  let basisCosts ← g.basisCosts
  let top ← g.data[0]?
  let reduced ← slice top 0 g.columns.length
  let value ← g.objectiveValue
  return ⟨phase, iteration, rows, g.basis, basisCosts, g.costs, reduced, value, pick⟩

/-- The choice when a column enters. -/
def pickAt (g : Grid K) (column : Nat) (tolerance : K) : Option (Pick K) := do
  let ratios ← g.ratios column tolerance
  let leaving := firstLeast ratios
  let element ← leaving.mapM fun row => g.entry (row + 1) column
  return ⟨column, leaving, element, ratios⟩

/-- One phase from a grid on, with the given numbers of pivots left and made. -/
def iterate (phase : Phase) (eligible : Nat) (tolerance : K) :
    Nat → Nat → Grid K → Option (Passage K)
  | left, made, g => do
      let g ← g.refresh
      match ← g.entering eligible tolerance with
      | none => do
          let last ← g.record phase made none
          return ⟨[last], g, made, .optimal⟩
      | some column =>
          match left with
          | 0 => return ⟨[], g, made, .exhausted⟩
          | left + 1 => do
              let pick ← g.pickAt column tolerance
              let visited ← g.record phase made (some pick)
              match pick.leaving with
              | none => return ⟨[visited], g, made, .unbounded⟩
              | some row => do
                  let next ← g.loggedPivot row column
                  let rest ← iterate phase eligible tolerance left (made + 1) next
                  return { rest with trace := visited :: rest.trace }

end Grid
end LinProg.Arrays
