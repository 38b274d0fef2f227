import LinProg.Proofs.Arrays.Text
import LinProg.Solver.Basic
import Mathlib.Data.List.Basic

/-!
# The graphical method by position

The lines of a problem are met in pairs of positions, and the objective is evaluated by the
positions of its two coefficients. In a problem in two variables no access fails.
-/
namespace LinProg.Arrays
variable {K : Type} [Scalar K]

/-- Where the lines at two positions meet. -/
def meetAt (lines : List (Line K)) (i j : Nat) : Option (Option (Point K)) := do
  let l ← lines[i]?
  let m ← lines[j]?
  return l.meet? m

/-- Where the line at a position meets the later ones. -/
def laterMeets (lines : List (Line K)) (i : Nat) : Option (List (Point K)) := do
  let points ← (List.range' (i + 1) (lines.length - (i + 1))).mapM (meetAt lines i)
  return points.filterMap id

def candidateVertices (p : Problem K) : Option (List (Point K)) := do
  let lines := p.boundaries
  let points ← (List.range lines.length).mapM (laterMeets lines)
  return points.flatten ++ lines.flatMap Line.intercepts ++ [Point.origin]

/-- The value of the objective at a point of the plane. -/
def valueAt (p : Problem K) (v : Point K) : Option K := do
  let a ← p.objective.coefficients[0]?
  let b ← p.objective.coefficients[1]?
  return Scalar.dot [a, b] v.toList

/-- The better of the best vertex so far, which comes with its value, and another vertex. -/
def betterVertex (p : Problem K) (best : Point K × K) (v : Point K) : Option (Point K × K) :=
  (valueAt p v).map fun value =>
    if p.objective.sense.better value best.2 then (v, value) else best

/-- Whether a gain along a direction counts. -/
def gains (tolerance : K) : Sense → K → Bool
  | .max, gain => tolerance < gain
  | .min, gain => gain < -tolerance

section
variable [Polar K]

def unboundedAlong (p : Problem K) (tolerance : K) (d : Point K) : Option Bool :=
  match Problem.unitVector? tolerance d with
  | none => some false
  | some u =>
      if u.x < -tolerance || u.y < -tolerance then some false
      else (valueAt p u).map fun gain =>
        p.recedesAlong tolerance u && gains tolerance p.objective.sense gain

/-- The best vertex with its value. -/
def bestVertex (p : Problem K) (tolerance : K) : Option (Except Failure (Point K × K)) :=
  if p.size ≠ 2 then some (.error (.notTwoVariables p.size))
  else do
    let candidates ← candidateVertices p
    let feasible := candidates.filter (Point.feasible tolerance p.constraints)
    match feasible with
    | [] => return .error .infeasible
    | first :: _ => do
        let value ← valueAt p first
        let others ← slice feasible 1 feasible.length
        let best ← others.foldlM (betterVertex p) (first, value)
        let unbounded ← p.directions.anyM (unboundedAlong p tolerance)
        return if unbounded then .error .unbounded else .ok best

end

section
variable [Printable K]

/-- The row of a numbered constraint. -/
def graphicalRow (p : Problem K) (lines : List (Line K)) :
    Constraint K × Nat → Option (List String)
  | (c, i) => do
      let lhs ← linearExpression c.coefficients [p.variableName 0, p.variableName 1]
      let rhs ← short c.rhs
      let boundary ← lines[i]?
      let points ← (p.drawingPoints i boundary).mapM pointText
      return [lhs ++ " " ++ c.relation.symbol ++ " " ++ rhs, lhs ++ " = " ++ rhs] ++
        padded Problem.listedPoints "-" points

def axesRow (p : Problem K) : Option (List String) := do
  let names := [p.variableName 0, p.variableName 1]
  let x ← names[0]?
  let y ← names[1]?
  let origin ← pointText (Point.origin : Point K)
  return [x ++ ", " ++ y ++ " ≥ 0", x ++ " = 0, " ++ y ++ " = 0"] ++
    padded Problem.listedPoints "-" [origin]

def graphicalTable (p : Problem K) : Option Table := do
  let rows ← p.constraints.zipIdx.mapM (graphicalRow p p.boundaries)
  let axes ← axesRow p
  return (Table.ofHeaders ["Constraint", "Equation", "Point 1", "Point 2", "Point 3"]).pushAll
    (rows ++ [axes])

end

theorem laterMeets_eq {lines : List (Line K)} {i : ℕ} (hi : i < lines.length) :
    laterMeets lines i = some ((lines.drop (i + 1)).filterMap lines[i].meet?) := by
  have hpoints : (List.range' (i + 1) (lines.length - (i + 1))).mapM (meetAt lines i) =
      some ((lines.drop (i + 1)).map lines[i].meet?) := by
    have hlen : ((lines.drop (i + 1)).map lines[i].meet?).length = lines.length - (i + 1) := by simp
    rw [← hlen]
    apply mapM_range'
    intro j hj
    have hlt : i + 1 + j < lines.length := by
      rw [hlen] at hj
      omega
    simp [meetAt, hi, hlt]
  simp only [laterMeets, hpoints, Option.bind_eq_bind, Option.bind_some, List.filterMap_map]
  rfl

theorem flatten_laterMeets (lines : List (Line K)) :
    (lines.mapIdx fun i l => (lines.drop (i + 1)).filterMap l.meet?).flatten =
      Line.meets lines := by
  induction lines with
  | nil => rfl
  | cons l rest ih =>
    rw [List.mapIdx_cons, List.flatten_cons, Line.meets, ← ih]
    rfl

theorem candidateVertices_eq (p : Problem K) :
    candidateVertices p = some p.candidateVertices := by
  have hmeets : (List.range p.boundaries.length).mapM (laterMeets p.boundaries) =
      some (p.boundaries.mapIdx fun i l => (p.boundaries.drop (i + 1)).filterMap l.meet?) := by
    have hlen : (p.boundaries.mapIdx fun i l =>
        (p.boundaries.drop (i + 1)).filterMap l.meet?).length = p.boundaries.length :=
      List.length_mapIdx
    rw [← hlen]
    apply mapM_range
    intro i hi
    rw [laterMeets_eq (hlen ▸ hi), List.getElem_mapIdx]
  simp only [candidateVertices, hmeets, Option.bind_eq_bind, Option.bind_some, flatten_laterMeets]
  rfl

theorem valueAt_eq {p : Problem K} (hp : p.size = 2) (v : Point K) :
    valueAt p v = some (p.valueAt v) := by
  obtain ⟨a, b, hab⟩ := List.length_eq_two.mp hp
  simp [valueAt, Problem.valueAt, Problem.objectiveAt, hab]

theorem foldlM_betterVertex {p : Problem K} (hp : p.size = 2) (first : Point K)
    (others : List (Point K)) :
    others.foldlM (betterVertex p) (first, p.valueAt first) =
      some (others.foldl p.betterPoint first, p.valueAt (others.foldl p.betterPoint first)) := by
  refine (foldlM_eq_foldl (P := fun _ => True) (fun v => (v, p.valueAt v)) ?_ trivial).1
  intro v _ w _
  refine ⟨?_, trivial⟩
  rw [betterVertex, valueAt_eq hp, Problem.betterPoint]
  split <;> simp_all

variable [Polar K]

theorem unboundedAlong_eq {p : Problem K} (hp : p.size = 2) (tolerance : K) (d : Point K) :
    unboundedAlong p tolerance d = some (p.unboundedAlong tolerance d) := by
  rw [unboundedAlong, Problem.unboundedAlong]
  cases Problem.unitVector? tolerance d with
  | none => rfl
  | some u =>
    simp only [valueAt_eq hp, Option.map_some]
    split
    · rfl
    · cases hs : p.objective.sense <;> simp [Problem.improvesAlong, gains, hs]

theorem bestVertex_eq (p : Problem K) (tolerance : K) : bestVertex p tolerance =
    some ((p.bestVertex tolerance).map fun v => (v, p.valueAt v)) := by
  rw [bestVertex, Problem.bestVertex]
  split
  · rfl
  · rename_i hsize
    have hp : p.size = 2 := by omega
    rw [candidateVertices_eq]
    simp only [Option.bind_eq_bind, Option.bind_some]
    rw [show p.candidateVertices.filter (Point.feasible tolerance p.constraints) =
      p.feasibleVertices tolerance from rfl]
    cases hfeasible : p.feasibleVertices tolerance with
    | nil => rfl
    | cons first others =>
      have hrays : p.directions.anyM (unboundedAlong p tolerance) =
          some (p.directions.any (p.unboundedAlong tolerance)) :=
        anyM_eq_any fun d _ => unboundedAlong_eq hp tolerance d
      simp only [valueAt_eq hp, slice_tail, foldlM_betterVertex hp, hrays, Option.bind_some]
      split <;> rfl

omit [Polar K]

variable [Printable K]

theorem graphicalRow_eq (p : Problem K) {i : ℕ} (hi : i < p.constraints.length) :
    graphicalRow p p.boundaries (p.constraints[i], i) =
      some (p.graphicalRow p.constraints[i] i) := by
  have hboundary : p.boundaries[i]? = some p.constraints[i].boundary := by
    simp [Problem.boundaries, hi]
  have hpoints (points : List (Point K)) : points.mapM pointText = some (points.map Point.text) :=
    mapM_eq_map fun v _ => pointText_eq v
  simp only [graphicalRow, linearExpression_eq, short_eq, hboundary, hpoints, Option.bind_eq_bind,
    Option.bind_some]
  rfl

theorem graphicalTable_eq (p : Problem K) : graphicalTable p = some p.graphicalTable := by
  have hrows : p.constraints.zipIdx.mapM (graphicalRow p p.boundaries) =
      some (p.constraints.mapIdx fun i c => p.graphicalRow c i) := by
    apply mapM_zipIdx (by simp)
    intro i hi _
    rw [Nat.zero_add, graphicalRow_eq p hi, List.getElem_mapIdx]
  have haxes : axesRow p = some p.axesRow := by
    simp [axesRow, Problem.axesRow]
  simp only [graphicalTable, hrows, haxes, Option.bind_eq_bind, Option.bind_some]
  rfl

end LinProg.Arrays
