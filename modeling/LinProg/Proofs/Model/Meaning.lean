import LinProg.Proofs.Model.Acceptance
import LinProg.Proofs.Problem.Checking
import LinProg.Proofs.Problem.Optimality
import LinProg.Proofs.Scalar.Rational

/-!
# What a problem has to do with its model

Compiling numbers the variables of a model by their first occurrence and writes every sum of terms
as a row over all of them. Where the numbers are exact, a row at a point is the sum as it is
written, but for the constants, which are on the other side of the relation.
-/
namespace LinProg

theorem mem_addNew (seen names : List String) (v : String) :
    v ∈ addNew seen names ↔ v ∈ seen ∨ v ∈ names := by
  induction names generalizing seen with
  | nil => simp [addNew]
  | cons name names ih =>
    unfold addNew
    split
    · rename_i hseen
      rw [ih, List.mem_cons]
      constructor
      · rintro (hv | hv)
        · exact .inl hv
        · exact .inr (.inr hv)
      · rintro (hv | rfl | hv)
        · exact .inl hv
        · exact .inl hseen
        · exact .inr hv
    · rw [ih, List.mem_append, List.mem_singleton, List.mem_cons, or_assoc]

/-- The names stand in the order in which they occur first in the list. -/
def InOrder (occurrences names : List String) : Prop :=
  names.Pairwise fun v w => occurrences.idxOf v < occurrences.idxOf w

theorem InOrder.append {occurrences names : List String} (h : InOrder occurrences names)
    (hmem : ∀ v ∈ names, v ∈ occurrences) (more : List String) :
    InOrder (occurrences ++ more) names := by
  apply h.imp_of_mem
  intro v w hv hw hlt
  rwa [List.idxOf_append_of_mem (hmem v hv), List.idxOf_append_of_mem (hmem w hw)]

/-- A name that has not occurred comes after all that have. -/
theorem InOrder.concat {occurrences names : List String} (h : InOrder occurrences names)
    (hmem : ∀ v ∈ names, v ∈ occurrences) {name : String} (hnew : name ∉ occurrences) :
    InOrder (occurrences ++ [name]) (names ++ [name]) := by
  apply List.pairwise_append.mpr
  refine ⟨h.append hmem [name], List.pairwise_singleton _ _, ?_⟩
  intro v hv w hw
  rw [List.mem_singleton.mp hw, List.idxOf_append_of_mem (hmem v hv),
    List.idxOf_append_of_notMem hnew]
  have hlt := List.idxOf_lt_length_of_mem (hmem v hv)
  omega

theorem InOrder.nodup {occurrences names : List String} (h : InOrder occurrences names) :
    names.Nodup := by
  apply h.imp
  rintro v w hlt rfl
  omega

theorem inOrder_addNew {done seen : List String} (hseen : ∀ v, v ∈ seen ↔ v ∈ done)
    (h : InOrder done seen) (names : List String) :
    InOrder (done ++ names) (addNew seen names) := by
  induction names generalizing done seen with
  | nil => simpa [addNew] using h
  | cons name names ih =>
    have hmem (v : String) (hv : v ∈ seen) : v ∈ done := (hseen v).mp hv
    rw [List.append_cons]
    unfold addNew
    split
    · rename_i hold
      apply ih _ (h.append hmem [name])
      intro v
      rw [List.mem_append, List.mem_singleton, hseen]
      constructor
      · exact .inl
      · rintro (hv | rfl)
        · exact hv
        · exact hmem _ hold
    · rename_i hnew
      apply ih _ (h.concat hmem fun hdone => hnew ((hseen name).mpr hdone))
      intro v
      rw [List.mem_append, List.mem_append, hseen]

namespace Statement
variable {K : Type}

def terms : Statement K → List (Term K)
  | objective o => o.terms
  | constraint c => c.terms

end Statement

namespace Model
variable {K : Type}

/-- The variables of a model, each as often as it occurs. -/
def occurrences (m : Model K) : List String :=
  m.statements.flatMap fun s => s.terms.filterMap Term.name

variable [Scalar K]

/-- A problem is compiled from an objective without constants and from named constraints. -/
theorem compile_eq_ok {m : Model K} {p : Problem K} (h : m.compile = .ok p) :
    ∃ o named, m.Declares o (named.map Prod.snd) ∧ p = problemOf o named ∧ o.terms ≠ [] ∧
      ∀ t ∈ o.terms, t.isConstant = false := by
  obtain ⟨o, declared, hstates, hp⟩ := exists_states_of_compile h
  refine ⟨o, namedFrom 1 declared, ?_, hp, hstates.terms_ne_nil, hstates.not_isConstant⟩
  rw [map_snd_namedFrom]
  exact hstates.declares

/-- The variables of the problem are those of the model, once each and in the order in which they
occur first, and every row has an entry for each of them. -/
structure ListsVariables (m : Model K) (p : Problem K) : Prop where
  mem_names : ∀ v, v ∈ p.names ↔ v ∈ m.occurrences
  inOrder : InOrder m.occurrences p.names
  length_objective : p.objective.coefficients.length = p.names.length
  length_row : ∀ c ∈ p.constraints, c.coefficients.length = p.names.length

omit [Scalar K] in
theorem Declares.occurrences_eq {m : Model K} {o : ObjectiveStatement K}
    {named : List (String × ConstraintStatement K)} (h : m.Declares o (named.map Prod.snd)) :
    m.occurrences = (o.terms ++ named.flatMap fun c => c.2.terms).filterMap Term.name := by
  rw [Declares] at h
  simp [occurrences, h, Statement.terms, List.filterMap_flatMap, List.flatMap_map,
    Function.comp_def]

theorem Declares.names_eq {m : Model K} {o : ObjectiveStatement K}
    {named : List (String × ConstraintStatement K)} (h : m.Declares o (named.map Prod.snd)) :
    (problemOf o named).names = addNew [] m.occurrences := by
  rw [h.occurrences_eq]
  rfl

theorem listsVariables {m : Model K} {p : Problem K} (h : m.compile = .ok p) :
    m.ListsVariables p := by
  obtain ⟨o, named, hdeclares, rfl, _⟩ := compile_eq_ok h
  constructor
  · intro v
    rw [hdeclares.names_eq, mem_addNew]
    simp
  · have horder : InOrder ([] ++ m.occurrences) (addNew [] m.occurrences) :=
      inOrder_addNew (by simp) List.Pairwise.nil m.occurrences
    rwa [hdeclares.names_eq]
  · simp [problemOf]
  · intro c hc
    obtain ⟨d, _, rfl⟩ := List.mem_map.mp hc
    simp [problemOf, constraintOf]

/-- An objective without constants names a variable in its first term. -/
theorem names_ne_nil {m : Model K} {p : Problem K} (h : m.compile = .ok p) : p.names ≠ [] := by
  obtain ⟨o, named, hdeclares, _, hne, hvariables⟩ := compile_eq_ok h
  obtain ⟨t, ht⟩ := List.exists_mem_of_ne_nil _ hne
  obtain ⟨v, hv⟩ : ∃ v, t.name = some v := by
    have hname := hvariables t ht
    rwa [Term.isConstant, Option.isNone_eq_false_iff, Option.isSome_iff_exists] at hname
  have hoccurs : v ∈ m.occurrences := by
    rw [hdeclares.occurrences_eq, List.mem_filterMap]
    exact ⟨t, List.mem_append_left _ ht, hv⟩
  exact List.ne_nil_of_mem (((listsVariables h).mem_names v).mpr hoccurs)

end Model

namespace Problem
variable {K : Type} [Scalar K]

/-- A number of the objective, or of the constraint of the given name, is not finite. -/
def HasNonFinite (p : Problem K) (place : String) : Prop :=
  (place = "objective" ∧ ∃ x ∈ p.objective.coefficients, Scalar.isFinite x = false) ∨
    ∃ c ∈ p.constraints, place = c.name ∧
      (Scalar.isFinite c.rhs = false ∨ ∃ x ∈ c.coefficients, Scalar.isFinite x = false)

/-- A problem whose rows are as long as its objective is faulty only by its numbers. -/
theorem validate_eq_error {p : Problem K} (hsize : p.size ≠ 0)
    (hrows : ∀ c ∈ p.constraints, c.coefficients.length = p.size) {e : Failure}
    (h : p.validate = .error e) : ∃ place, e = .nonFinite place ∧ p.HasNonFinite place := by
  have hfault := validate_eq_error_iff.mp h
  unfold fault? at hfault
  rw [if_neg hsize] at hfault
  split at hfault
  · obtain ⟨c, hc, hcause⟩ := List.exists_of_findSome?_eq_some hfault
    refine ⟨c.name, ?_⟩
    unfold Constraint.fault? at hcause
    rw [if_neg (not_not.mpr (hrows c hc))] at hcause
    split at hcause
    · cases hcause
    · rename_i hnumbers
      cases hcause
      refine ⟨rfl, .inr ⟨c, hc, rfl, ?_⟩⟩
      rw [Bool.and_eq_true, not_and_or, Bool.not_eq_true, List.all_eq_true] at hnumbers
      simpa using hnumbers
  · rename_i hnumbers
    cases hfault
    refine ⟨"objective", rfl, .inl ⟨rfl, ?_⟩⟩
    simpa using hnumbers

end Problem

namespace Model

theorem validate_compiled {K : Type} [Scalar K] {m : Model K} {p : Problem K}
    (h : m.compile = .ok p) {e : Failure} (he : p.validate = .error e) :
    ∃ place, e = .nonFinite place ∧ p.HasNonFinite place := by
  have hlists := listsVariables h
  have hsize : p.size = p.names.length := hlists.length_objective
  apply Problem.validate_eq_error _ _ he
  · rw [hsize]
    exact mt List.length_eq_zero_iff.mp (names_ne_nil h)
  · intro c hc
    rw [hsize]
    exact hlists.length_row c hc

end Model

section Exact
variable {K : Type} [Field K] [LinearOrder K]

/-- What a term is worth where the variables have the given values. -/
def Term.valueAt (ρ : String → K) (t : Term K) : K :=
  t.name.elim t.coefficient fun v => t.coefficient * ρ v

/-- The sum of terms as it is written. -/
def sumAt (ρ : String → K) (terms : List (Term K)) : K := (terms.map (Term.valueAt ρ)).sum

namespace Model

omit [LinearOrder K] in
theorem foldl_add_if (terms : List (Term K)) (test : Term K → Prop) [DecidablePred test] (z : K) :
    terms.foldl (fun sum t => if test t then sum + t.coefficient else sum) z =
      z + (terms.map fun t => if test t then t.coefficient else 0).sum := by
  induction terms generalizing z with
  | nil => simp
  | cons t terms ih =>
    rw [List.foldl_cons, ih, List.map_cons, List.sum_cons]
    split
    · rw [add_assoc]
    · rw [zero_add]

theorem coefficientOf_cons (t : Term K) (terms : List (Term K)) (v : String) :
    coefficientOf (t :: terms) v = (if t.name = some v then t.coefficient else 0) +
      coefficientOf terms v := by
  simp only [coefficientOf, foldl_add_if, List.map_cons, List.sum_cons, zero_add]

theorem constantOf_cons (t : Term K) (terms : List (Term K)) :
    constantOf (t :: terms) = (if t.isConstant then t.coefficient else 0) + constantOf terms := by
  simp only [constantOf, foldl_add_if, List.map_cons, List.sum_cons, zero_add]

omit [LinearOrder K] in
/-- A term adds its value to the row where its variable stands, or it is a constant. -/
theorem sum_term {names : List String} (hnodup : names.Nodup) {t : Term K}
    (ht : ∀ v, t.name = some v → v ∈ names) (ρ : String → K) :
    (names.map fun v => (if t.name = some v then t.coefficient else 0) * ρ v).sum +
      (if t.isConstant then t.coefficient else 0) = t.valueAt ρ := by
  cases hname : t.name with
  | none => simp [Term.valueAt, Term.isConstant, hname]
  | some w =>
    have hcount : names.count w = 1 := List.count_eq_one_of_mem hnodup (ht w hname)
    have hsum : (names.map fun v => if v = w then t.coefficient * ρ v else 0).sum =
        t.coefficient * ρ w := by
      rw [List.sum_map_ite_eq names (fun v => t.coefficient * ρ v) (fun _ => 0) w, hcount]
      simp
    simp [Term.valueAt, Term.isConstant, hname, eq_comm (a := w), hsum]

/-- The row of a sum at a point, with the constants added, is the sum as it is written. -/
theorem dot_add_constantOf {names : List String} (hnodup : names.Nodup) {terms : List (Term K)}
    (hnames : ∀ t ∈ terms, ∀ v, t.name = some v → v ∈ names) (ρ : String → K) :
    Scalar.dot (names.map (coefficientOf terms)) (names.map ρ) + constantOf terms =
      sumAt ρ terms := by
  have hdot (ts : List (Term K)) : Scalar.dot (names.map (coefficientOf ts)) (names.map ρ) =
      (names.map fun v => coefficientOf ts v * ρ v).sum := by
    rw [Scalar.dot, Scalar.sum_exact, List.zipWith_map, List.zipWith_self]
  rw [hdot]
  induction terms with
  | nil => simp [coefficientOf, constantOf, sumAt]
  | cons t terms ih =>
    have hrest := ih fun u hu => hnames u (List.mem_cons_of_mem t hu)
    have hterm := sum_term hnodup (hnames t List.mem_cons_self) ρ
    simp only [coefficientOf_cons, constantOf_cons, add_mul, List.sum_map_add, sumAt, List.map_cons,
      List.sum_cons] at hrest ⊢
    rw [← hterm, ← hrest]
    ring

theorem constantOf_eq_zero {terms : List (Term K)} (h : ∀ t ∈ terms, t.isConstant = false) :
    constantOf terms = (0 : K) := by
  induction terms with
  | nil => rfl
  | cons t terms ih =>
    rw [constantOf_cons, ih fun u hu => h u (List.mem_cons_of_mem t hu), h t List.mem_cons_self]
    simp

end Model

variable [IsStrictOrderedRing K]

/-- The same number may be taken from both sides, whatever the tolerance. -/
theorem Relation.holds_sub (r : Relation) (a b c t : K) :
    r.holds (a - c) (b - c) t = r.holds a b t := by
  rw [Bool.eq_iff_iff]
  cases r with
  | le => simp only [holds_le]; constructor <;> intro h <;> linarith
  | ge => simp only [holds_ge]; constructor <;> intro h <;> linarith
  | eq => simp only [holds_eq, sub_sub_sub_cancel_right]

namespace Model

/-- At every valuation of the variables, the constraint compares the same sides as the statement
up to the same tolerance. -/
structure Compares (names : List String) (d : ConstraintStatement K) (c : Constraint K) : Prop where
  relation_eq : c.relation = d.relation
  holds_eq : ∀ (ρ : String → K) (t : K),
    c.relation.holds (Scalar.dot c.coefficients (names.map ρ)) c.rhs t =
      d.relation.holds (sumAt ρ d.terms) d.rhs t

theorem compares_constraintOf {names : List String} (hnodup : names.Nodup) (name : String)
    {d : ConstraintStatement K} (hnames : ∀ t ∈ d.terms, ∀ v, t.name = some v → v ∈ names) :
    Compares names d (constraintOf names name d) := by
  constructor
  · rfl
  · intro ρ t
    have hsum := dot_add_constantOf hnodup hnames ρ
    rw [← eq_sub_iff_add_eq] at hsum
    simp only [constraintOf]
    rw [hsum, Relation.holds_sub]

/-- The objective and the constraints of the problem mean what the statements of the model say. -/
structure HasMeaning (m : Model K) (p : Problem K) (o : ObjectiveStatement K)
    (declared : List (ConstraintStatement K)) : Prop where
  declares : m.Declares o declared
  sense_eq : p.objective.sense = o.sense
  objectiveAt_eq : ∀ ρ : String → K, p.objectiveAt (p.names.map ρ) = sumAt ρ o.terms
  constraints : List.Forall₂ (Compares p.names) declared p.constraints

theorem hasMeaning {m : Model K} {p : Problem K} (h : m.compile = .ok p) :
    ∃ o declared, m.HasMeaning p o declared := by
  have hlists := listsVariables h
  have hnodup := hlists.inOrder.nodup
  obtain ⟨o, named, hdeclares, rfl, _, hvariables⟩ := compile_eq_ok h
  have hmem (t : Term K) (ht : t ∈ o.terms ++ named.flatMap fun c => c.2.terms) (v : String)
      (hv : t.name = some v) : v ∈ (problemOf o named).names := by
    rw [hlists.mem_names, hdeclares.occurrences_eq]
    exact List.mem_filterMap.mpr ⟨t, ht, hv⟩
  refine ⟨o, named.map Prod.snd, hdeclares, rfl, ?_, ?_⟩
  · intro ρ
    have hsum := dot_add_constantOf hnodup (fun t ht => hmem t (List.mem_append_left _ ht)) ρ
    rwa [constantOf_eq_zero hvariables, add_zero] at hsum
  · simp only [problemOf, List.forall₂_map_left_iff, List.forall₂_map_right_iff, List.forall₂_same]
    intro c hc
    apply compares_constraintOf hnodup
    intro t ht
    exact hmem t (List.mem_append_right _ (List.mem_flatMap.mpr ⟨c, hc, ht⟩))

end Model
end Exact

namespace Model

/-- Compiling lists the variables of a model and keeps its meaning, and the only fault that it
leaves in a problem is a number that is not finite. -/
theorem compile_keeps_meaning :
    (∀ (K : Type) [Field K] [LinearOrder K] [IsStrictOrderedRing K] (m : Model K) (p : Problem K),
      m.compile = .ok p → m.ListsVariables p ∧ ∃ o declared, m.HasMeaning p o declared) ∧
    ∀ (S : Type) [Scalar S] (m : Model S) (p : Problem S),
      m.compile = .ok p → m.ListsVariables p ∧
        ∀ e, p.validate = .error e → ∃ place, e = .nonFinite place ∧ p.HasNonFinite place := by
  constructor
  · intro K _ _ _ m p h
    exact ⟨listsVariables h, hasMeaning h⟩
  · intro S _ m p h
    exact ⟨listsVariables h, fun e he => validate_compiled h he⟩

/-- The variable `x` cancels in the objective, `z` comes late, and a constant stands on the left:
`max: 3x + y - 3x`, `x + 4 >= 1` and `z + z <= 5`. -/
def lateVariable : Model ℚ :=
  ⟨[.objective ⟨⟨0, 16⟩, .max,
      [⟨⟨5, 7⟩, 3, some "x"⟩, ⟨⟨8, 11⟩, 1, some "y"⟩, ⟨⟨12, 16⟩, -3, some "x"⟩]⟩,
    .constraint ⟨⟨17, 27⟩, none, [⟨⟨17, 18⟩, 1, some "x"⟩, ⟨⟨19, 22⟩, 4, none⟩], .ge, 1⟩,
    .constraint ⟨⟨28, 38⟩, none, [⟨⟨28, 29⟩, 1, some "z"⟩, ⟨⟨30, 33⟩, 1, some "z"⟩], .le, 5⟩]⟩

def lateVariableProblem : Problem ℚ :=
  { names := ["x", "y", "z"]
    objective := ⟨[0, 1, 0], .max⟩
    constraints := [⟨"c1", [1, 0, 0], .ge, -3⟩, ⟨"c2", [0, 0, 2], .le, 5⟩]
    toggles := .none }

theorem compile_keeps_meaning_lateVariable :
    lateVariable.compile = .ok lateVariableProblem ∧
      lateVariable.ListsVariables lateVariableProblem ∧
      ∃ o declared, lateVariable.HasMeaning lateVariableProblem o declared := by
  have hcompile : lateVariable.compile = .ok lateVariableProblem := by decide +kernel
  exact ⟨hcompile, compile_keeps_meaning.1 ℚ lateVariable lateVariableProblem hcompile⟩

end Model
end LinProg
