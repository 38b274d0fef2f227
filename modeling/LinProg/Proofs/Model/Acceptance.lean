import LinProg.Model.Compile
import LinProg.Proofs.Scalar.Rational
import Mathlib.Data.List.Induction

/-!
# Which models state a problem

A model is well formed if it is an objective without constants followed by constraints of distinct
names, where a constraint without a name is called by its number. Compiling accepts the well-formed
models. Of any other model it blames the first statement with which the statements up to it are no
well-formed model. Nothing is assumed of the numbers.
-/
namespace LinProg
variable {K : Type}

/-- The name of a constraint with a number: its own or, if it has none, that of the number. -/
def ConstraintStatement.nameAs (c : ConstraintStatement K) (number : ℕ) : String :=
  c.name.getD (numbered "c" number)

namespace Model

/-- The model consists of an objective and of constraints after it. -/
def Declares (m : Model K) (o : ObjectiveStatement K) (declared : List (ConstraintStatement K)) :
    Prop :=
  m.statements = .objective o :: declared.map .constraint

/-- The names of constraints, of which the first has the given number. -/
def namesFrom (number : ℕ) (declared : List (ConstraintStatement K)) : List String :=
  declared.mapIdx fun i c => c.nameAs (number + i)

/-- The model is an objective without constants and constraints of distinct names after it. -/
structure States (m : Model K) (o : ObjectiveStatement K)
    (declared : List (ConstraintStatement K)) : Prop where
  declares : m.Declares o declared
  terms_ne_nil : o.terms ≠ []
  not_isConstant : ∀ t ∈ o.terms, t.isConstant = false
  nodup_names : (namesFrom 1 declared).Nodup

def IsWellFormed (m : Model K) : Prop := ∃ o declared, m.States o declared

/-- The statements are a well-formed model, or there are none yet. -/
def Sound (statements : List (Statement K)) : Prop :=
  statements = [] ∨ IsWellFormed ⟨statements⟩

/-- What is wrong with a statement after the given ones, as an error tells it. -/
inductive Fault : List (Statement K) → Statement K → CompileError → Prop
  | notObjective (c : ConstraintStatement K) :
      Fault [] (.constraint c) (.missingObjective c.span)
  | constant {o : ObjectiveStatement K} {before after : List (Term K)} {t : Term K} :
      o.terms = before ++ t :: after → (∀ u ∈ before, u.isConstant = false) →
      t.isConstant = true → Fault [] (.objective o) (.constantInObjective t.span)
  | empty {o : ObjectiveStatement K} : o.terms = [] →
      Fault [] (.objective o) (.emptyObjective o.span)
  | another {before : List (Statement K)} (o : ObjectiveStatement K) : before ≠ [] →
      Fault before (.objective o) (.duplicateObjective o.span)
  | repeated {o : ObjectiveStatement K} {declared : List (ConstraintStatement K)}
      {c : ConstraintStatement K} : c.nameAs (declared.length + 1) ∈ namesFrom 1 declared →
      Fault (.objective o :: declared.map .constraint) (.constraint c)
        (.duplicateConstraint (c.nameAs (declared.length + 1)) c.span)

/-- All is well up to the statement after the given ones, and not with it. -/
structure BreaksFirst (before : List (Statement K)) (s : Statement K) : Prop where
  sound : Sound before
  broken : ¬ IsWellFormed ⟨before ++ [s]⟩

/-- The error tells what is wrong with the first statement with which the model is no longer well
formed, or that there are no statements. -/
inductive Blames (m : Model K) : CompileError → Prop
  | nothing : m.statements = [] → Blames m (.missingObjective ⟨0, 0⟩)
  | statement {before after : List (Statement K)} {s : Statement K} {e : CompileError} :
      m.statements = before ++ s :: after → BreaksFirst before s → Fault before s e → Blames m e

/-- The constraints with their names, of which the first has the given number. -/
def namedFrom (number : ℕ) (declared : List (ConstraintStatement K)) :
    List (String × ConstraintStatement K) :=
  declared.mapIdx fun i c => (c.nameAs (number + i), c)

theorem namesFrom_cons (number : ℕ) (c : ConstraintStatement K)
    (declared : List (ConstraintStatement K)) :
    namesFrom number (c :: declared) = c.nameAs number :: namesFrom (number + 1) declared := by
  simp [namesFrom, List.mapIdx_cons, Nat.add_assoc, Nat.add_comm 1]

@[simp] theorem length_namesFrom (number : ℕ) (declared : List (ConstraintStatement K)) :
    (namesFrom number declared).length = declared.length := by
  simp [namesFrom]

theorem namesFrom_concat (number : ℕ) (declared : List (ConstraintStatement K))
    (c : ConstraintStatement K) :
    namesFrom number (declared ++ [c]) =
      namesFrom number declared ++ [c.nameAs (number + declared.length)] := by
  simp [namesFrom, List.mapIdx_append]

theorem namedFrom_cons (number : ℕ) (c : ConstraintStatement K)
    (declared : List (ConstraintStatement K)) :
    namedFrom number (c :: declared) =
      (c.nameAs number, c) :: namedFrom (number + 1) declared := by
  simp [namedFrom, List.mapIdx_cons, Nat.add_assoc, Nat.add_comm 1]

@[simp] theorem map_fst_namedFrom (number : ℕ) (declared : List (ConstraintStatement K)) :
    (namedFrom number declared).map Prod.fst = namesFrom number declared := by
  apply List.ext_getElem <;> simp [namedFrom, namesFrom]

@[simp] theorem map_snd_namedFrom (number : ℕ) (declared : List (ConstraintStatement K)) :
    (namedFrom number declared).map Prod.snd = declared := by
  apply List.ext_getElem <;> simp [namedFrom]

/-- Constraints whose names are new are named one after the other, and naming goes on behind
them with their names taken. -/
theorem namedConstraints_append {taken : List String} {declared : List (ConstraintStatement K)}
    (h : (taken ++ namesFrom (taken.length + 1) declared).Nodup) (rest : List (Statement K)) :
    namedConstraints taken (declared.map .constraint ++ rest) =
      (namedConstraints (taken ++ namesFrom (taken.length + 1) declared) rest).map
        (namedFrom (taken.length + 1) declared ++ ·) := by
  -- each name is taken for the next constraint, so the numbers go on with the length of `taken`
  induction declared generalizing taken with
  | nil =>
    simp only [List.map_nil, List.nil_append, namesFrom, namedFrom, List.mapIdx_nil, List.append_nil]
    cases namedConstraints taken rest <;> rfl
  | cons c declared ih =>
    rw [namesFrom_cons] at h
    have hnew : c.nameAs (taken.length + 1) ∉ taken := fun hmem =>
      (List.nodup_cons.mp (List.nodup_middle.mp h)).1 (List.mem_append_left _ hmem)
    have hothers := @ih (taken ++ [c.nameAs (taken.length + 1)])
    rw [List.append_cons] at h
    rw [List.length_append, List.length_singleton] at hothers
    rw [namesFrom_cons, List.append_cons, namedFrom_cons, List.map_cons, List.cons_append,
      namedConstraints, ← ConstraintStatement.nameAs, if_neg hnew, hothers h]
    cases namedConstraints _ rest <;> rfl

/-- The search for a fault of an objective finds what is wrong with it as the first statement. -/
theorem objectiveFault?_eq_some_iff {o : ObjectiveStatement K} {e : CompileError} :
    objectiveFault? o = some e ↔ Fault [] (.objective o) e := by
  unfold objectiveFault?
  constructor
  · intro h
    split at h
    · rename_i t hfind
      obtain ⟨ht, before, after, hterms, hbefore⟩ := List.find?_eq_some_iff_append.mp hfind
      cases h
      exact .constant hterms (fun u hu => by simpa using hbefore u hu) ht
    · split at h
      · rename_i hempty
        cases h
        exact .empty (List.isEmpty_iff.mp hempty)
      · cases h
  · intro h
    cases h with
    | @constant _ before after t hterms hbefore ht =>
      have hfind : o.terms.find? Term.isConstant = some t :=
        List.find?_eq_some_iff_append.mpr
          ⟨ht, before, after, hterms, fun u hu => by simpa using hbefore u hu⟩
      rw [hfind]
    | empty hterms => simp [hterms]
    | another _ hne => exact absurd rfl hne

theorem objectiveFault?_eq_none_iff {o : ObjectiveStatement K} :
    objectiveFault? o = none ↔ o.terms ≠ [] ∧ ∀ t ∈ o.terms, t.isConstant = false := by
  unfold objectiveFault?
  constructor
  · intro h
    split at h
    · cases h
    · rename_i hfind
      rw [List.find?_eq_none] at hfind
      split at h
      · cases h
      · rename_i hempty
        exact ⟨by simpa using hempty, fun t ht => by simpa using hfind t ht⟩
  · rintro ⟨hne, hvariables⟩
    have hfind : o.terms.find? Term.isConstant = none := by
      simpa [List.find?_eq_none] using hvariables
    simpa [hfind] using hne

/-- An objective without faults is a well-formed model. -/
theorem states_objective {o : ObjectiveStatement K} (h : objectiveFault? o = none) :
    States ⟨[.objective o]⟩ o [] := by
  obtain ⟨hne, hvariables⟩ := objectiveFault?_eq_none_iff.mp h
  exact ⟨rfl, hne, hvariables, List.nodup_nil⟩

theorem States.concat {before : List (Statement K)} {o : ObjectiveStatement K}
    {declared : List (ConstraintStatement K)} (h : States ⟨before⟩ o declared)
    {c : ConstraintStatement K} (hnew : c.nameAs (declared.length + 1) ∉ namesFrom 1 declared) :
    States ⟨before ++ [.constraint c]⟩ o (declared ++ [c]) := by
  refine ⟨?_, h.terms_ne_nil, h.not_isConstant, ?_⟩
  · have hbefore : before = .objective o :: declared.map .constraint := h.declares
    simp [Declares, hbefore]
  · rw [namesFrom_concat, Nat.add_comm, List.nodup_middle, List.append_nil]
    exact List.nodup_cons.mpr ⟨hnew, h.nodup_names⟩

/-- A statement leaves what comes before it well formed, or something is wrong with it. -/
theorem isWellFormed_or_fault {before : List (Statement K)} (h : Sound before) (s : Statement K) :
    IsWellFormed ⟨before ++ [s]⟩ ∨ ∃ e, Fault before s e := by
  rcases h with rfl | ⟨o, declared, h⟩
  · cases s with
    | constraint c => exact .inr ⟨_, .notObjective c⟩
    | objective o =>
      cases hfault : objectiveFault? o with
      | none => exact .inl ⟨o, [], states_objective hfault⟩
      | some e => exact .inr ⟨e, objectiveFault?_eq_some_iff.mp hfault⟩
  · cases s with
    | objective another =>
      have hbefore : before = .objective o :: declared.map .constraint := h.declares
      exact .inr ⟨_, .another another (by simp [hbefore])⟩
    | constraint c =>
      by_cases hmem : c.nameAs (declared.length + 1) ∈ namesFrom 1 declared
      · obtain rfl : before = .objective o :: declared.map .constraint := h.declares
        exact .inr ⟨_, .repeated hmem⟩
      · exact .inl ⟨o, declared ++ [c], h.concat hmem⟩

variable [Scalar K]

/-- After a well-formed beginning, compiling goes on by naming the constraints behind it. -/
theorem States.compile_append {before : List (Statement K)} {o : ObjectiveStatement K}
    {declared : List (ConstraintStatement K)} (h : States ⟨before⟩ o declared)
    (rest : List (Statement K)) :
    compile ⟨before ++ rest⟩ = (namedConstraints (namesFrom 1 declared) rest).map
      fun others => problemOf o (namedFrom 1 declared ++ others) := by
  obtain rfl : before = .objective o :: declared.map .constraint := h.declares
  have hfault := objectiveFault?_eq_none_iff.mpr ⟨h.terms_ne_nil, h.not_isConstant⟩
  have hnamed := @namedConstraints_append K [] declared h.nodup_names rest
  simp only [List.length_nil, Nat.zero_add, List.nil_append] at hnamed
  simp only [compile, List.cons_append, hfault, hnamed]
  cases namedConstraints (namesFrom 1 declared) rest <;> rfl

theorem States.compile_eq {m : Model K} {o : ObjectiveStatement K}
    {declared : List (ConstraintStatement K)} (h : m.States o declared) :
    m.compile = .ok (problemOf o (namedFrom 1 declared)) := by
  have hcompile := h.compile_append []
  simpa [namedConstraints, Except.map] using hcompile

/-- Compiling a model with a fault after a well-formed beginning ends with the fault. -/
theorem Fault.compile_eq {before : List (Statement K)} {s : Statement K} {e : CompileError}
    (h : Fault before s e) (hsound : Sound before) (after : List (Statement K)) :
    compile ⟨before ++ s :: after⟩ = .error e := by
  rcases hsound with rfl | ⟨o, declared, hstates⟩
  · cases s with
    | constraint c =>
      cases h
      rfl
    | objective o =>
      simp only [compile, List.nil_append, objectiveFault?_eq_some_iff.mpr h]
  · rw [hstates.compile_append]
    have hbefore : before = .objective o :: declared.map .constraint := hstates.declares
    cases h with
    | another => rfl
    | @repeated _ _ c hmem =>
      have hinj : Function.Injective (Statement.constraint (K := K)) := fun _ _ => by simp
      obtain ⟨_, hmap⟩ := List.cons.inj hbefore
      obtain rfl := List.map_injective_iff.mpr hinj hmap
      rw [namedConstraints, length_namesFrom, ← ConstraintStatement.nameAs, if_pos hmem]
      rfl
    | _ => cases hbefore

theorem Fault.breaksFirst {before : List (Statement K)} {s : Statement K} {e : CompileError}
    (h : Fault before s e) (hsound : Sound before) : BreaksFirst before s := by
  refine ⟨hsound, fun ⟨o, declared, hstates⟩ => ?_⟩
  have herror := h.compile_eq hsound []
  rw [hstates.compile_eq] at herror
  cases herror

theorem Blames.compile_eq {m : Model K} {e : CompileError} (h : m.Blames e) :
    m.compile = .error e := by
  obtain ⟨statements⟩ := m
  cases h with
  | nothing hnil =>
    subst hnil
    rfl
  | statement hsplit hbreaks hfault =>
    subst hsplit
    exact hfault.compile_eq hbreaks.sound _

/-- Statements are sound, or one of them is the first to break this. -/
theorem sound_or_exists_fault (statements : List (Statement K)) :
    Sound statements ∨ ∃ before s after e, statements = before ++ s :: after ∧
      BreaksFirst before s ∧ Fault before s e := by
  -- from the left, because whether a statement breaks anything depends on those before it
  induction statements using List.reverseRecOn with
  | nil => exact .inl (.inl rfl)
  | append_singleton done s ih =>
    rcases ih with hsound | ⟨before, t, after, e, rfl, hbreaks, hfault⟩
    · rcases isWellFormed_or_fault hsound s with hwell | ⟨e, hfault⟩
      · exact .inl (.inr hwell)
      · exact .inr ⟨done, s, [], e, rfl, hfault.breaksFirst hsound, hfault⟩
    · exact .inr ⟨before, t, after ++ [s], e, by simp, hbreaks, hfault⟩

theorem isWellFormed_or_blames (m : Model K) : m.IsWellFormed ∨ ∃ e, m.Blames e := by
  rcases sound_or_exists_fault m.statements with
    (hnil | hwell) | ⟨before, s, after, e, hsplit, hbreaks, hfault⟩
  · exact .inr ⟨_, .nothing hnil⟩
  · exact .inl hwell
  · exact .inr ⟨e, .statement hsplit hbreaks hfault⟩

theorem exists_states_of_compile {m : Model K} {p : Problem K} (h : m.compile = .ok p) :
    ∃ o declared, m.States o declared ∧ p = problemOf o (namedFrom 1 declared) := by
  rcases isWellFormed_or_blames m with ⟨o, declared, hstates⟩ | ⟨e, hblames⟩
  · rw [hstates.compile_eq] at h
    cases h
    exact ⟨o, declared, hstates, rfl⟩
  · rw [hblames.compile_eq] at h
    cases h

theorem blames_of_compile {m : Model K} {e : CompileError} (h : m.compile = .error e) :
    m.Blames e := by
  rcases isWellFormed_or_blames m with ⟨o, declared, hstates⟩ | ⟨fault, hblames⟩
  · rw [hstates.compile_eq] at h
    cases h
  · rw [hblames.compile_eq] at h
    cases h
    exact hblames

/-- Compiling accepts the well-formed models and returns their constraints in order under their
names. The error for any other model tells its first fault. -/
theorem compile_blames_first_fault (m : Model K) :
    ((∃ p, m.compile = .ok p) ↔ m.IsWellFormed) ∧
      (∀ p, m.compile = .ok p → ∃ o declared, m.States o declared ∧
        p.constraints = declared.mapIdx fun i c => constraintOf p.names (c.nameAs (i + 1)) c) ∧
      ∀ e, m.compile = .error e ↔ m.Blames e := by
  refine ⟨⟨fun ⟨p, hp⟩ => ?_, fun ⟨o, declared, hstates⟩ => ⟨_, hstates.compile_eq⟩⟩,
    fun p hp => ?_, fun e => ⟨blames_of_compile, Blames.compile_eq⟩⟩
  · obtain ⟨o, declared, hstates, _⟩ := exists_states_of_compile hp
    exact ⟨o, declared, hstates⟩
  · obtain ⟨o, declared, hstates, hp⟩ := exists_states_of_compile hp
    refine ⟨o, declared, hstates, ?_⟩
    subst hp
    apply List.ext_getElem
    · simp [problemOf, namedFrom]
    · intro i _ _
      simp [problemOf, namedFrom, Nat.add_comm]

/-- The label `c3` stands before the third constraint, which has none, and a second objective
comes after it: `max: x`, `c3: x <= 1`, `x <= 2`, `x <= 3` and `min: x`. -/
def lateNumber : Model ℚ :=
  ⟨[.objective ⟨⟨0, 6⟩, .max, [⟨⟨5, 6⟩, 1, some "x"⟩]⟩,
    .constraint ⟨⟨7, 17⟩, some "c3", [⟨⟨11, 12⟩, 1, some "x"⟩], .le, 1⟩,
    .constraint ⟨⟨18, 24⟩, none, [⟨⟨18, 19⟩, 1, some "x"⟩], .le, 2⟩,
    .constraint ⟨⟨25, 31⟩, none, [⟨⟨25, 26⟩, 1, some "x"⟩], .le, 3⟩,
    .objective ⟨⟨32, 38⟩, .min, [⟨⟨37, 38⟩, 1, some "x"⟩]⟩]⟩

/-- What is stated before the names collide. -/
def lateNumberProblem : Problem ℚ :=
  { names := ["x"]
    objective := ⟨[1], .max⟩
    constraints := [⟨"c3", [1], .le, 1⟩, ⟨"c2", [1], .le, 2⟩]
    toggles := .none }

theorem compile_blames_first_fault_lateNumber :
    (⟨lateNumber.statements.take 3⟩ : Model ℚ).compile = .ok lateNumberProblem ∧
      (⟨lateNumber.statements.take 3⟩ : Model ℚ).IsWellFormed ∧
      lateNumber.compile = .error (.duplicateConstraint "c3" ⟨25, 31⟩) ∧
      lateNumber.Blames (.duplicateConstraint "c3" ⟨25, 31⟩) := by
  have hbefore : (⟨lateNumber.statements.take 3⟩ : Model ℚ).compile = .ok lateNumberProblem := by
    decide +kernel
  have herror : lateNumber.compile = .error (.duplicateConstraint "c3" ⟨25, 31⟩) := by
    decide +kernel
  exact ⟨hbefore, (compile_blames_first_fault _).1.mp ⟨_, hbefore⟩, herror,
    ((compile_blames_first_fault lateNumber).2.2 _).mp herror⟩

end Model
end LinProg
