import LinProg.Proofs.Json.Respelling
import LinProg.Proofs.Problem.Names
import LinProg.Proofs.Scalar.Rational
import LinProg.Record.Json

/-!
# Records there and back

A record states a problem if its lists have equal lengths, and the record of that problem is the one
that it was stated by. The other way round only names are lost. The JSON form of a record with finite
numbers is read as the record itself, whichever way its signs are spelled. Nothing else is assumed
of the numbers, and nothing is claimed of their digits in a text.
-/
namespace LinProg
variable {K : Type}

namespace Record

/-- No row is dropped, and none is mixed up with another, where the lists have equal lengths. -/
theorem parts_constraintsFrom (number : ℕ) {rows : List (List K)} {signs : List Relation}
    {values : List K} (hsigns : signs.length = rows.length) (hvalues : values.length = rows.length) :
    (constraintsFrom number rows signs values).map Constraint.coefficients = rows ∧
      (constraintsFrom number rows signs values).map Constraint.relation = signs ∧
      (constraintsFrom number rows signs values).map Constraint.rhs = values := by
  induction rows generalizing number signs values with
  | nil =>
    rw [List.length_nil, List.length_eq_zero_iff] at hsigns hvalues
    simp [constraintsFrom, hsigns, hvalues]
  | cons row rows ih =>
    obtain ⟨sign, signs, rfl⟩ := List.exists_cons_of_length_eq_add_one hsigns
    obtain ⟨value, values, rfl⟩ := List.exists_cons_of_length_eq_add_one hvalues
    obtain ⟨hrows, hrelations, hrhs⟩ := ih (number + 1) (Nat.succ.inj hsigns) (Nat.succ.inj hvalues)
    simp [constraintsFrom, hrows, hrelations, hrhs]

theorem toRecord_problem {r : Record K} (hsigns : r.signs.length = r.rows.length)
    (hvalues : r.values.length = r.rows.length) : r.problem.toRecord = r := by
  obtain ⟨hrows, hrelations, hrhs⟩ := parts_constraintsFrom 1 hsigns hvalues
  simp only [Problem.toRecord, problem, hrows, hrelations, hrhs]

/-- A list of the record is not as long as its list of rows. The signs are looked at first. -/
inductive Mismatch (r : Record K) : Failure → Prop
  | signs : r.signs.length ≠ r.rows.length →
      Mismatch r (.lengthMismatch .signs r.rows.length r.signs.length)
  | values : r.signs.length = r.rows.length → r.values.length ≠ r.rows.length →
      Mismatch r (.lengthMismatch .values r.rows.length r.values.length)

theorem toProblem_eq_error_iff {r : Record K} {e : Failure} :
    r.toProblem = .error e ↔ r.Mismatch e := by
  unfold toProblem
  constructor
  · intro h
    split at h
    · rename_i hsigns
      cases h
      exact .signs hsigns
    · rename_i hsigns
      split at h
      · rename_i hvalues
        cases h
        exact .values (not_not.mp hsigns) hvalues
      · cases h
  · intro h
    cases h with
    | signs hsigns => rw [if_pos hsigns]
    | values hsigns hvalues => rw [if_neg (not_not.mpr hsigns), if_pos hvalues]

/-- A record with lists of equal lengths states a problem, whose record it is. -/
theorem exists_toProblem_iff {r : Record K} :
    (∃ p, r.toProblem = .ok p ∧ p.toRecord = r) ↔
      r.signs.length = r.rows.length ∧ r.values.length = r.rows.length := by
  constructor
  · rintro ⟨p, -, hr⟩
    rw [← hr]
    simp [Problem.toRecord]
  · rintro ⟨hsigns, hvalues⟩
    refine ⟨r.problem, ?_, toRecord_problem hsigns hvalues⟩
    rw [toProblem, if_neg (not_not.mpr hsigns), if_neg (not_not.mpr hvalues)]

@[simp] theorem valuesOf_optionalField {A : Type} (name field : String) (encode : A → Json K)
    (o : Option A) :
    Json.valuesOf name (optionalField field encode o) =
      if field = name then (o.map encode).toList else [] := by
  cases o <;> simp [optionalField]

theorem decodes_sense (s : Sense) : Json.Decodes (Sense.ofJson? (N := K)) (.string s.name) s := by
  cases s with
  | max => exact Json.decodes_string (by decide) (by decide) rfl
  | min => exact Json.decodes_string (by decide) (by decide) rfl

theorem decodes_toggle (t : Toggle) : Json.Decodes (Toggle.ofJson? (N := K)) t.toJson t := by
  cases t with
  | plus => exact Json.decodes_string (by decide) (by decide) rfl
  | minus => exact Json.decodes_string (by decide) (by decide) rfl

/-- A relation is read off its spelling and off its symbol. -/
theorem decodes_relation (r : Relation) :
    Json.Decodes (Relation.ofJson? (N := K)) r.toJson r := by
  cases r with
  | le =>
    intro other hother
    rcases hother.string_cases with rfl | ⟨_, rfl⟩ | ⟨hs, _⟩
    · rfl
    · rfl
    · exact absurd hs (by decide)
  | ge =>
    intro other hother
    rcases hother.string_cases with rfl | ⟨hs, _⟩ | ⟨_, rfl⟩
    · rfl
    · exact absurd hs (by decide)
    · rfl
  | eq => exact Json.decodes_string (by decide) (by decide) rfl

variable [Scalar K]

/-- All numbers of the record are finite. -/
structure IsFinite (r : Record K) : Prop where
  objective : ∀ x ∈ r.objective, Scalar.isFinite x = true
  rows : ∀ row ∈ r.rows, ∀ x ∈ row, Scalar.isFinite x = true
  values : ∀ x ∈ r.values, Scalar.isFinite x = true

theorem ofJson?_respelled {r : Record K} (h : r.IsFinite) {j : Json K} (hj : r.toJson.Respelled j) :
    ofJson? some j = some r := by
  obtain ⟨others, rfl, hothers⟩ := hj.exists_fields
  have hnumbers (xs : List K) (hxs : ∀ x ∈ xs, Scalar.isFinite x = true) :
      Json.Decodes (Json.list? (Json.scalar? some)) (.ofList .ofNumber xs) xs :=
    Json.decodes_list fun x hx => Json.decodes_number (hxs x hx)
  have hsense := Json.required_eq_some "problemType" (hothers _) (by simp) (decodes_sense r.sense)
  have hobjective := Json.required_eq_some "objectiveFunction" (hothers _) (by simp)
    (hnumbers r.objective h.objective)
  have hrows := Json.required_eq_some "constraintCoefficients" (hothers _) (by simp)
    (Json.decodes_list fun row hrow => hnumbers row (h.rows row hrow))
  have hsigns := Json.required_eq_some "constraintSigns" (hothers _) (by simp)
    (Json.decodes_list fun sign (_ : sign ∈ r.signs) => decodes_relation sign)
  have hvalues := Json.required_eq_some "constraintValues" (hothers _) (by simp)
    (hnumbers r.values h.values)
  have htoggle := Json.optional_eq_some "objectiveOperator" (hothers _)
    (by simp) rfl (fun t (_ : t ∈ r.objectiveToggle) => decodes_toggle t)
  have htoggles := Json.optional_eq_some "constraintOperators" (hothers _)
    (by simp) rfl fun ts (_ : ts ∈ r.constraintToggles) =>
      Json.decodes_list fun t (_ : t ∈ ts) => decodes_toggle t
  simp only [ofJson?, Json.parts?, Option.bind_eq_bind, Option.bind_some, hsense, hobjective, hrows,
    hsigns, hvalues, htoggle, htoggles]
  rfl

/-- The fields of the toggles are there where the toggles are set. -/
theorem mem_fieldNames_toJson (r : Record K) :
    ("objectiveOperator" ∈ r.toJson.fieldNames ↔ r.objectiveToggle ≠ none) ∧
      ("constraintOperators" ∈ r.toJson.fieldNames ↔ r.constraintToggles ≠ none) := by
  simp only [toJson, Json.fieldNames]
  cases r.objectiveToggle <;> cases r.constraintToggles <;> simp [optionalField]

/-- A record goes to its problem and back unchanged, a problem to its record and back up to its
names, which become `x1`, `x2`, … and `c1`, `c2`, …, and a record with finite numbers to its JSON
form and back, also where signs are spelled by their symbols. -/
theorem round_trips :
    (∀ r : Record K, (∀ e, r.toProblem = .error e ↔ r.Mismatch e) ∧
      ((∃ p, r.toProblem = .ok p ∧ p.toRecord = r) ↔
        r.signs.length = r.rows.length ∧ r.values.length = r.rows.length)) ∧
    (∀ p : Problem K, p.toRecord.toProblem = .ok
      { p with
        names := (List.range p.objective.coefficients.length).map fun j => "x" ++ (j + 1).repr
        constraints := p.constraints.mapIdx fun i c => { c with name := "c" ++ (i + 1).repr } }) ∧
    ∀ r : Record K,
      ("objectiveOperator" ∈ r.toJson.fieldNames ↔ r.objectiveToggle ≠ none) ∧
      ("constraintOperators" ∈ r.toJson.fieldNames ↔ r.constraintToggles ≠ none) ∧
      (r.IsFinite → ofJson? some r.toJson = some r ∧
        ∀ j, r.toJson.Respelled j → ofJson? some j = some r) := by
  refine ⟨fun r => ⟨fun e => toProblem_eq_error_iff, exists_toProblem_iff⟩,
    Problem.toProblem_toRecord, fun r => ?_⟩
  obtain ⟨hobjective, hconstraints⟩ := mem_fieldNames_toJson r
  exact ⟨hobjective, hconstraints, fun h =>
    ⟨ofJson?_respelled h (.refl _), fun j hj => ofJson?_respelled h hj⟩⟩

/-- Each relation once, and toggles for the constraints only. -/
def threeSigns : Record ℚ :=
  { sense := .min
    objective := [1, 1 / 2]
    rows := [[1, 1], [2, 0], [0, 1]]
    signs := [.ge, .le, .eq]
    values := [4, 3, -1]
    objectiveToggle := none
    constraintToggles := some [.plus, .minus, .plus] }

/-- The JSON form with the first sign as a symbol and the second one as it is spelled. -/
def threeSignsJson : Json ℚ :=
  .object [("problemType", .string "min"),
    ("objectiveFunction", .array [.number 1, .number (1 / 2)]),
    ("constraintCoefficients", .array [.array [.number 1, .number 1],
      .array [.number 2, .number 0], .array [.number 0, .number 1]]),
    ("constraintSigns", .array [.string "≥", .string "<=", .string "="]),
    ("constraintValues", .array [.number 4, .number 3, .number (-1)]),
    ("constraintOperators", .array [.string "+", .string "-", .string "+"])]

/-- The record with a sign too few and a value too many. -/
def unevenSigns : Record ℚ :=
  { threeSigns with
    signs := [.ge, .le]
    values := [4, 3, -1, 0] }

/-- Two fields with names of their own: one too many for the variables, and for the constraints a
name that is made up for the other one. -/
def namedFields : Problem ℚ where
  names := ["wheat", "rye", "oats"]
  objective := ⟨[3, 5], .max⟩
  constraints := [⟨"c2", [1, 2], .le, 8⟩, ⟨"land", [1], .ge, -1⟩]
  toggles := ⟨some .minus, some [.plus, .minus, .minus]⟩

/-- Signs are read in both spellings, lists of different lengths are refused, and the names of a
problem are made up anew. -/
theorem round_trips_threeSigns :
    threeSigns.IsFinite ∧ threeSigns.toJson.Respelled threeSignsJson ∧
      ofJson? some threeSigns.toJson = some threeSigns ∧
      ofJson? some threeSignsJson = some threeSigns ∧
      "objectiveOperator" ∉ threeSigns.toJson.fieldNames ∧
      "constraintOperators" ∈ threeSigns.toJson.fieldNames ∧
      unevenSigns.toProblem = .error (.lengthMismatch .signs 3 2) ∧
      namedFields.toRecord.toProblem = .ok
        { names := ["x1", "x2"]
          objective := ⟨[3, 5], .max⟩
          constraints := [⟨"c1", [1, 2], .le, 8⟩, ⟨"c2", [1], .ge, -1⟩]
          toggles := ⟨some .minus, some [.plus, .minus, .minus]⟩ } := by
  have hfinite : threeSigns.IsFinite := ⟨fun _ _ => rfl, fun _ _ _ _ => rfl, fun _ _ => rfl⟩
  have hsigns : Json.Respelled (N := ℚ) (.array [.string ">=", .string "<=", .string "="])
      (.array [.string "≥", .string "<=", .string "="]) :=
    .array (.cons .ge (.cons (.refl _) (.cons (.refl _) .nil)))
  have hrespelled : threeSigns.toJson.Respelled threeSignsJson :=
    .object rfl (.cons (.refl _) (.cons (.refl _) (.cons (.refl _) (.cons hsigns
      (.cons (.refl _) (.cons (.refl _) .nil))))))
  obtain ⟨hrecord, hproblem, hjson⟩ := @round_trips ℚ _
  obtain ⟨hobjective, hconstraints, hread⟩ := hjson threeSigns
  obtain ⟨hself, hothers⟩ := hread hfinite
  exact ⟨hfinite, hrespelled, hself, hothers threeSignsJson hrespelled,
    fun h => hobjective.mp h rfl, hconstraints.mpr (Option.some_ne_none _),
    ((hrecord unevenSigns).1 _).mpr (.signs (by decide)), hproblem namedFields⟩

end Record
end LinProg
