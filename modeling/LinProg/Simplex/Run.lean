import LinProg.Simplex.Pivot

/-!
# Runs of the simplex method

A phase repeats pivots until no column improves the costs, no row bounds the entering column, or
the allowed number of pivots is used up; it records every tableau it visits with the choice made
there. A run has a first phase if there are artificial columns. Between the phases, artificial
columns at level zero leave the basis where another column can replace them.
-/

namespace LinProg

inductive Phase where
  | one
  | two
  deriving DecidableEq

/-- What is chosen at a tableau that is not optimal. -/
structure Choice (K : Type) where
  entering : Nat
  /-- The ratio of each row that bounds the entering column. -/
  ratios : List (Option K)
  /-- The row that leaves, if a row bounds the entering column. -/
  leaving : Option Nat
  deriving DecidableEq

/-- A tableau that a run visits. -/
structure Snapshot (K : Type) where
  phase : Phase
  /-- The number of pivots before it. -/
  iteration : Nat
  rows : List (Row K)
  costs : List K
  reduced : List K
  value : K
  /-- There is no choice at the last tableau of a phase. -/
  choice : Option (Choice K)
  deriving DecidableEq

/-- How a phase ends. -/
inductive Ending where
  | optimal
  | unbounded
  | exhausted
  deriving DecidableEq

/-- One phase of a run: what it visits, where it ends, and the pivots made by then. -/
structure Leg (K : Type) where
  trace : List (Snapshot K)
  rows : List (Row K)
  pivots : Nat
  ending : Ending
  deriving DecidableEq

/-- What a phase works with. -/
structure Stage (K : Type) where
  phase : Phase
  costs : List K
  /-- The number of columns, from the first on, that may enter. -/
  eligible : Nat
  /-- The level above which reduced costs and pivot elements count. -/
  tolerance : K

/-- The bounds of a run. -/
structure Limits (K : Type) where
  /-- The number of pivots allowed in both phases together. -/
  pivots : Nat
  /-- The level above which reduced costs and pivot elements count. -/
  tolerance : K
  /-- The largest sum of artificial variables that counts as zero. -/
  feasibilityTolerance : K

/-- The point and the value that a run finds. -/
structure Optimum (K : Type) where
  coordinates : List K
  value : K
  deriving DecidableEq

/-- A run of the simplex method. -/
structure Run (K : Type) where
  /-- The tableaus visited, also where there is no optimum. -/
  trace : List (Snapshot K)
  /-- The number of pivots that were counted against the limit. -/
  pivots : Nat
  outcome : Except Failure (Optimum K)

variable {K : Type} [Scalar K]

namespace Stage

/-- The record of a tableau. -/
def snapshot (s : Stage K) (iteration : Nat) (rows : List (Row K))
    (choice : Option (Choice K)) : Snapshot K :=
  { phase := s.phase, iteration, rows, costs := s.costs, reduced := reducedCosts s.costs rows,
    value := basicValue s.costs rows, choice }

/-- The column that enters at a tableau. -/
def entering? (s : Stage K) (rows : List (Row K)) : Option Nat :=
  firstLargest s.tolerance ((reducedCosts s.costs rows).take s.eligible)

/-- What is chosen when a column enters. -/
def choose (s : Stage K) (rows : List (Row K)) (column : Nat) : Choice K :=
  let ratios := rows.map (Row.ratio? s.tolerance column)
  { entering := column, ratios, leaving := firstLeast ratios }

/-- The phase from the given rows on, with the given numbers of pivots left and made. -/
def run (s : Stage K) : Nat → Nat → List (Row K) → Leg K
  | left, made, rows =>
      match s.entering? rows with
      | none => ⟨[s.snapshot made rows none], rows, made, .optimal⟩
      | some column =>
          -- the limit matters only where the phase would go on
          match left with
          | 0 => ⟨[], rows, made, .exhausted⟩
          | left + 1 =>
              let choice := s.choose rows column
              let visited := s.snapshot made rows (some choice)
              match choice.leaving with
              -- the column can grow for ever; the pivot that never was is recorded
              | none => ⟨[visited], rows, made, .unbounded⟩
              | some row =>
                  let rest := s.run left (made + 1) (pivot rows row column)
                  { rest with trace := visited :: rest.trace }

end Stage

/-- The rows after an artificial column, if one is basic in the row at a position, has made
room for the first real column with an entry there. -/
def replaceArtificial (real : Nat) (tolerance : K) (rows : List (Row K)) (row : Nat) :
    List (Row K) :=
  match rows[row]? with
  | none => rows
  | some r =>
      if r.basic < real then rows
      else
        match (r.entries.take real).findIdx? fun v => tolerance < Scalar.abs v with
        | none => rows
        | some column => pivot rows row column

/-- The rows after artificial columns have left the basis wherever possible. -/
def driveOut (real : Nat) (tolerance : K) (rows : List (Row K)) : List (Row K) :=
  (List.range rows.length).foldl (replaceArtificial real tolerance) rows

namespace Problem

def stageOne (p : Problem K) (limits : Limits K) : Stage K :=
  { phase := .one, costs := p.artificialCosts, eligible := p.columns.length,
    tolerance := limits.tolerance }

/-- The second phase of a problem, in which no artificial column enters. -/
def stageTwo (p : Problem K) (limits : Limits K) : Stage K :=
  { phase := .two, costs := p.objectiveCosts, eligible := p.realColumns.length,
    tolerance := limits.tolerance }

/-- The optimum that the rows at the end of the second phase show. -/
def optimumAt (p : Problem K) (rows : List (Row K)) : Optimum K :=
  let best := basicValue p.objectiveCosts rows
  { coordinates := basicPoint p.size rows
    value := match p.objective.sense with | .max => best | .min => -best }

/-- The outcome of a run whose second phase is given. -/
def outcomeOf (p : Problem K) (limits : Limits K) (leg : Leg K) :
    Except Failure (Optimum K) :=
  match leg.ending with
  | .optimal => .ok (p.optimumAt leg.rows)
  | .unbounded => .error .unbounded
  | .exhausted => .error (.iterationLimit limits.pivots)

/-- The failure of a run whose first phase is given, unless the first phase finds a feasible
tableau: the artificial variables can all be zero only if their sum ends at zero. -/
def phaseOneFailure? (p : Problem K) (limits : Limits K) (leg : Leg K) : Option Failure :=
  match leg.ending with
  | .unbounded => some .infeasible
  | .exhausted => some (.iterationLimit limits.pivots)
  | .optimal =>
      if limits.feasibilityTolerance < -basicValue p.artificialCosts leg.rows then
        some .infeasible
      else none

def simplex (p : Problem K) (limits : Limits K) : Run K :=
  if p.artificialColumns.isEmpty then
    let leg := (p.stageTwo limits).run limits.pivots 0 p.initialRows
    ⟨leg.trace, leg.pivots, p.outcomeOf limits leg⟩
  else
    let first := (p.stageOne limits).run limits.pivots 0 p.initialRows
    match p.phaseOneFailure? limits first with
    | some failure => ⟨first.trace, first.pivots, .error failure⟩
    | none =>
        -- pivots that drive artificial columns out are not counted
        let rows := driveOut p.realColumns.length limits.tolerance first.rows
        let second :=
          (p.stageTwo limits).run (limits.pivots - first.pivots) first.pivots rows
        ⟨first.trace ++ second.trace, second.pivots, p.outcomeOf limits second⟩

end Problem

end LinProg
