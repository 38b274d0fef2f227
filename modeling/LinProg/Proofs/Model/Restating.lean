import LinProg.Proofs.Model.Printing

/-!
# Printed problems are models

The text that a problem is printed as states the same problem, if its numbers have at most four
places and its objective is not zero. Variables that are in no row are lost, and the others are
numbered anew by their first occurrence, so that rows are compared by the names of the variables.
-/
namespace LinProg

namespace Grammar
open Display

@[simp] theorem isMinus_signLeaf (negative : Bool) :
    isMinus (some (signLeaf negative)) = negative := by
  cases negative <;> rfl

theorem signed_abs (x : ℚ) : Read.signed (decide (x < 0)) |x| = x := by
  by_cases hx : x < 0
  · simp [Read.signed, hx, abs_of_neg hx]
  · simp [Read.signed, hx, abs_of_nonneg (not_lt.mp hx)]

theorem termOf_factorOf {text : List Char} {v : ℚ} (hvalue : Literal.value? text = some v)
    {sign : Option Sign} (hsign : ∀ s ∈ sign, s.val.span = ⟨0, 0⟩) (t : Shown) :
    termOf sign (factorOf text t) =
      ⟨⟨0, 0⟩, Read.signed (isMinus sign) (if |t.1| = 1 then 1 else v), some t.2⟩ := by
  cases sign with
  | none =>
    by_cases hunit : |t.1| = 1 <;>
      simp [termOf, factorOf, hunit, extent, Factor.tokens, Factor.coefficient, Factor.name?, value,
        nameLeaf, numberLeaf, hvalue]
  | some s =>
    by_cases hunit : |t.1| = 1 <;>
      simp [termOf, factorOf, hunit, extent, Factor.tokens, Factor.coefficient, Factor.name?, value,
        nameLeaf, numberLeaf, hvalue, hsign s rfl]

theorem signLeaf_span (negative : Bool) : (signLeaf negative).val.span = ⟨0, 0⟩ := by
  cases negative <;> rfl

theorem term_addendOf {t : Shown} (h : HasFourPlaces t.1) :
    (addendOf t).term = ⟨⟨0, 0⟩, t.1, some t.2⟩ := by
  have hvalue := value?_signedText h.abs
  rw [signedText_abs h] at hvalue
  have hterm := @termOf_factorOf _ _ hvalue (some (signLeaf (decide (t.1 < 0))))
    (by simp [signLeaf_span]) t
  have hunit : (if |t.1| = 1 then 1 else |t.1|) = |t.1| := by
    split
    · rw [‹|t.1| = 1›]
    · rfl
  rw [hunit, isMinus_signLeaf, signed_abs] at hterm
  exact hterm

theorem termOf_lead {t : Shown} (h : HasFourPlaces t.1) (ts : List Shown) :
    termOf (sumOf (t :: ts)).sign (sumOf (t :: ts)).first = ⟨⟨0, 0⟩, t.1, some t.2⟩ := by
  have hvalue := value?_signedText h
  simp only [sumOf]
  split
  · rename_i hunit
    rw [termOf_factorOf hvalue (by simp [signLeaf_span]), if_pos hunit.1, isMinus_signLeaf,
      ← hunit.1, abs_of_neg hunit.2]
    simp [Read.signed]
  · rename_i hlead
    have hcoefficient : (if |t.1| = 1 then 1 else t.1) = t.1 := by
      split
      · rename_i hunit
        rw [← abs_of_nonneg (not_lt.mp fun hneg => hlead ⟨hunit, hneg⟩), hunit]
      · rfl
    rw [termOf_factorOf hvalue (by simp), hcoefficient]
    rfl

/-- The terms of a printed sum are read with their coefficients and variables. -/
theorem terms_sumOf {t : Shown} {ts : List Shown} (h : ∀ u ∈ t :: ts, HasFourPlaces u.1) :
    (sumOf (t :: ts)).terms = (t :: ts).map fun u => ⟨⟨0, 0⟩, u.1, some u.2⟩ := by
  have hrest : (ts.map addendOf).map Addend.term =
      ts.map fun u => (⟨⟨0, 0⟩, u.1, some u.2⟩ : Term ℚ) := by
    rw [List.map_map]
    exact List.map_congr_left fun u hu => term_addendOf (h u (List.mem_cons_of_mem t hu))
  rw [Sum.terms, termOf_lead (h t List.mem_cons_self), List.map_cons, ← hrest]
  rfl

theorem terms_sumOf_nil : (sumOf []).terms = [⟨⟨0, 0⟩, (0 : ℚ), none⟩] := by
  have hzero : Literal.value? ['0'] = some (0 : ℚ) := by decide +kernel
  simp [sumOf, Sum.terms, termOf, extent, Factor.tokens, Factor.coefficient, Factor.name?, value,
    numberLeaf, hzero, Read.signed, isMinus]

end Grammar

namespace Problem
variable {K : Type} [Scalar K]

/-- The coefficient of a variable in a row. A variable that is not in the problem has none, which
counts as zero. -/
def coefficientAt (names : List String) (coefficients : List K) (v : String) : K :=
  ((names.zip coefficients).lookup v).getD 0

/-- The problems have the same sense and the same constraints in the same order, and every variable
of either of them has the same coefficients in both. -/
structure Restates (q p : Problem K) : Prop where
  sense_eq : q.objective.sense = p.objective.sense
  objective : ∀ v, coefficientAt q.names q.objective.coefficients v =
    coefficientAt p.names p.objective.coefficients v
  constraints : List.Forall₂ (fun d c => d.name = c.name ∧ d.relation = c.relation ∧
    d.rhs = c.rhs ∧ ∀ v, coefficientAt q.names d.coefficients v =
      coefficientAt p.names c.coefficients v) q.constraints p.constraints

theorem coefficientAt_cons (name : String) (names : List String) (c : K) (cs : List K)
    (v : String) : coefficientAt (name :: names) (c :: cs) v =
      if name = v then c else coefficientAt names cs v := by
  rw [coefficientAt, List.zip_cons_cons, List.lookup_cons]
  by_cases h : name = v
  · simp [h]
  · have hbeq : (v == name) = false := beq_eq_false_iff_ne.mpr (Ne.symm h)
    simp [h, hbeq, coefficientAt]

theorem coefficientAt_map (names : List String) (f : String → K) (v : String) :
    coefficientAt names (names.map f) v = if v ∈ names then f v else 0 := by
  induction names with
  | nil => rfl
  | cons name names ih =>
    rw [List.map_cons, coefficientAt_cons, ih]
    by_cases h : name = v
    · simp [h]
    · simp [h, Ne.symm h]

end Problem

namespace Model

theorem coefficientOf_eq_zero {terms : List (Term ℚ)} {v : String}
    (h : ∀ t ∈ terms, t.name ≠ some v) : coefficientOf terms v = 0 := by
  induction terms with
  | nil => rfl
  | cons t terms ih =>
    rw [coefficientOf_cons, if_neg (h t List.mem_cons_self),
      ih fun u hu => h u (List.mem_cons_of_mem t hu), add_zero]

/-- A row over all variables of its terms has their coefficients. -/
theorem coefficientAt_coefficientOf {names : List String} {terms : List (Term ℚ)}
    (h : ∀ t ∈ terms, ∀ v, t.name = some v → v ∈ names) (v : String) :
    Problem.coefficientAt names (names.map (coefficientOf terms)) v = coefficientOf terms v := by
  rw [Problem.coefficientAt_map]
  split
  · rfl
  · rename_i hv
    exact (coefficientOf_eq_zero fun t ht hname => hv (h t ht v hname)).symm

/-- The terms of a row, as they are read. -/
def shownTerms (ts : List Display.Shown) : List (Term ℚ) :=
  ts.map fun u => ⟨⟨0, 0⟩, u.1, some u.2⟩

theorem coefficientOf_shown_cons (c : ℚ) (cs : List ℚ) (name : String) (names : List String)
    (v : String) : coefficientOf (shownTerms (Display.shown (c :: cs) (name :: names))) v =
      (if name = v then c else 0) + coefficientOf (shownTerms (Display.shown cs names)) v := by
  by_cases hc : c = 0
  · simp [Display.shown, hc]
  · have hfilter : Display.shown (c :: cs) (name :: names) = (c, name) :: Display.shown cs names :=
      List.filter_cons_of_pos (by simpa using hc)
    rw [hfilter, shownTerms, List.map_cons, coefficientOf_cons]
    simp [shownTerms]

theorem coefficientOf_shown_of_notMem {names : List String} {v : String} (h : v ∉ names)
    (coefficients : List ℚ) :
    coefficientOf (shownTerms (Display.shown coefficients names)) v = 0 := by
  refine coefficientOf_eq_zero fun t ht hname => ?_
  obtain ⟨u, hu, rfl⟩ := List.mem_map.mp ht
  exact h (Option.some.inj hname ▸ (Grammar.mem_shown hu).2)

/-- The terms that are shown have the coefficients of the row, zeros included. -/
theorem coefficientOf_shown {names : List String} (hnodup : names.Nodup) (coefficients : List ℚ)
    (v : String) : coefficientOf (shownTerms (Display.shown coefficients names)) v =
      Problem.coefficientAt names coefficients v := by
  induction names generalizing coefficients with
  | nil => cases coefficients <;> rfl
  | cons name names ih =>
    obtain ⟨hnew, hrest⟩ := List.nodup_cons.mp hnodup
    cases coefficients with
    | nil => rfl
    | cons c cs =>
      rw [coefficientOf_shown_cons, Problem.coefficientAt_cons]
      split
      · rename_i heq
        rw [coefficientOf_shown_of_notMem (heq ▸ hnew), add_zero]
      · rw [zero_add, ih hrest]

theorem coefficientOf_sumOf {ts : List Display.Shown} (h : ∀ t ∈ ts, HasFourPlaces t.1)
    (v : String) :
    coefficientOf (Grammar.sumOf ts).terms v = coefficientOf (shownTerms ts) v := by
  cases ts with
  | nil =>
    rw [Grammar.terms_sumOf_nil]
    exact coefficientOf_eq_zero (by simp)
  | cons t ts => rw [Grammar.terms_sumOf h, shownTerms]

theorem constantOf_sumOf {ts : List Display.Shown} (h : ∀ t ∈ ts, HasFourPlaces t.1) :
    constantOf (Grammar.sumOf ts).terms = (0 : ℚ) := by
  cases ts with
  | nil => simp [Grammar.terms_sumOf_nil, constantOf, Term.isConstant]
  | cons t ts =>
    rw [Grammar.terms_sumOf h]
    refine constantOf_eq_zero fun u hu => ?_
    obtain ⟨w, _, rfl⟩ := List.mem_map.mp hu
    rfl

def goalStatement (p : Problem ℚ) : ObjectiveStatement ℚ :=
  ⟨Grammar.extent (Grammar.printedObjective p).tokens, p.objective.sense,
    (Grammar.sumOf (Display.shown p.objective.coefficients p.names)).terms⟩

def lineStatement (names : List String) (c : Constraint ℚ) : ConstraintStatement ℚ :=
  ⟨Grammar.extent (Grammar.printedConstraint names c).tokens, some c.name,
    (Grammar.sumOf (Display.shown c.coefficients names)).terms, c.relation, c.rhs⟩

theorem meaning_printedObjective (p : Problem ℚ) :
    (Grammar.printedObjective p).meaning = .objective (goalStatement p) := by
  have hsense : Grammar.senseOf (Grammar.keywordLeaf p.objective.sense) = p.objective.sense := by
    cases p.objective.sense <;> rfl
  simp only [Grammar.printedObjective, Grammar.Statement.meaning, hsense]
  rfl

theorem meaning_printedConstraint (names : List String) {c : Constraint ℚ}
    (h : HasFourPlaces c.rhs) :
    (Grammar.printedConstraint names c).meaning = .constraint (lineStatement names c) := by
  have hrelation : Grammar.relationOf (Grammar.relationLeaf c.relation) = c.relation := by
    cases c.relation <;> rfl
  have hrhs : Grammar.value (Grammar.numberLeaf (Display.signedText c.rhs)).val = c.rhs := by
    simp [Grammar.value, Grammar.numberLeaf, Display.value?_signedText h]
  have hname : Grammar.labelName (some (Grammar.nameLeaf c.name, Grammar.colonLeaf)) =
      some c.name := by
    simp [Grammar.labelName, Grammar.nameLeaf]
  simp only [Grammar.printedConstraint, Grammar.Statement.meaning, hrelation, hrhs, hname]
  rfl

theorem statements_printed {p : Problem ℚ} (h : ∀ c ∈ p.constraints, HasFourPlaces c.rhs) :
    (Grammar.printed p).meaning.statements =
      .objective (goalStatement p) ::
        p.constraints.map fun c => .constraint (lineStatement p.names c) := by
  have hlines : (p.constraints.map fun c => (Grammar.printedConstraint p.names c).meaning) =
      p.constraints.map fun c => .constraint (lineStatement p.names c) :=
    List.map_congr_left fun c hc => meaning_printedConstraint p.names (h c hc)
  rw [← meaning_printedObjective, ← hlines]
  simp [Grammar.printed, Grammar.Model.meaning, Grammar.Model.statements, Grammar.Body.statements]

/-- Every line has a label. -/
theorem namedFrom_lines (number : ℕ) (names : List String) (cs : List (Constraint ℚ)) :
    namedFrom number (cs.map (lineStatement names)) =
      cs.map fun c => (c.name, lineStatement names c) := by
  apply List.ext_getElem <;> simp [namedFrom, ConstraintStatement.nameAs, lineStatement]

/-- The problem of the printed lines. -/
def reread (p : Problem ℚ) : Problem ℚ :=
  problemOf (goalStatement p) (p.constraints.map fun c => (c.name, lineStatement p.names c))

theorem states_printed {p : Problem ℚ} (hname : p.Nameable) (hplaces : p.HasFourPlaces)
    (hshown : Display.shown p.objective.coefficients p.names ≠ []) :
    (Grammar.printed p).meaning.States (goalStatement p)
      (p.constraints.map (lineStatement p.names)) := by
  have hfour := fun t ht => hplaces.objective _ (@Grammar.mem_shown _ p.names t ht).1
  have hterms : (goalStatement p).terms =
      shownTerms (Display.shown p.objective.coefficients p.names) := by
    obtain ⟨t, ts, hts⟩ := List.exists_cons_of_ne_nil hshown
    rw [goalStatement, hts, Grammar.terms_sumOf (hts ▸ hfour), shownTerms]
  constructor
  · rw [Declares, statements_printed hplaces.rhs, List.map_map]
    rfl
  · simpa [hterms, shownTerms] using hshown
  · rw [hterms]
    intro t ht
    obtain ⟨_, _, rfl⟩ := List.mem_map.mp ht
    rfl
  · rw [← map_fst_namedFrom, namedFrom_lines, List.map_map]
    exact hname.nodup_constraints

theorem compile_printed {p : Problem ℚ} (hname : p.Nameable) (hplaces : p.HasFourPlaces)
    (hshown : Display.shown p.objective.coefficients p.names ≠ []) :
    (Grammar.printed p).meaning.compile = .ok (reread p) := by
  rw [(states_printed hname hplaces hshown).compile_eq, namedFrom_lines]
  rfl

/-- A row of the problem that is read has the coefficients of the printed row. -/
theorem coefficientAt_sumOf {names others : List String} (hnodup : names.Nodup)
    {coefficients : List ℚ} (hfour : ∀ x ∈ coefficients, HasFourPlaces x)
    (hothers : ∀ t ∈ (Grammar.sumOf (Display.shown coefficients names)).terms (K := ℚ),
      ∀ v, t.name = some v → v ∈ others) (v : String) :
    Problem.coefficientAt others (others.map
        (coefficientOf (Grammar.sumOf (Display.shown coefficients names)).terms)) v =
      Problem.coefficientAt names coefficients v := by
  rw [coefficientAt_coefficientOf hothers,
    coefficientOf_sumOf fun t ht => hfour t.1 (Grammar.mem_shown ht).1,
    coefficientOf_shown hnodup]

theorem restates_reread {p : Problem ℚ} (hnodup : p.names.Nodup) (hplaces : p.HasFourPlaces) :
    (reread p).Restates p := by
  have hmem {t : Term ℚ} (ht : t ∈ (goalStatement p).terms ++
      (p.constraints.map fun c => (c.name, lineStatement p.names c)).flatMap fun c => c.2.terms)
      {v : String} (hv : t.name = some v) : v ∈ (reread p).names := by
    refine (mem_addNew ..).mpr (.inr ?_)
    exact List.mem_filterMap.mpr ⟨t, ht, hv⟩
  refine ⟨rfl, coefficientAt_sumOf hnodup hplaces.objective fun t ht v hv =>
    hmem (List.mem_append_left _ ht) hv, ?_⟩
  rw [reread, problemOf, List.map_map]
  refine List.forall₂_map_left_iff.mpr (List.forall₂_same.mpr fun c hc => ⟨rfl, rfl, ?_, ?_⟩)
  · have hzero : constantOf (lineStatement p.names c).terms = (0 : ℚ) :=
      constantOf_sumOf fun t ht => hplaces.coefficients c hc t.1 (Grammar.mem_shown ht).1
    show c.rhs - constantOf (lineStatement p.names c).terms = c.rhs
    rw [hzero, sub_zero]
  · refine coefficientAt_sumOf hnodup (hplaces.coefficients c hc) fun t ht v hv => hmem ?_ hv
    refine List.mem_append_right _ (List.mem_flatMap.mpr ⟨_, List.mem_map_of_mem hc, ht⟩)

end Model

namespace Problem

/-- The text that a problem is printed as states the same problem. -/
theorem ofText?_problemText {text : List Char} {p : Problem ℚ} (h : ofText? text = .ok p)
    (hplaces : p.HasFourPlaces) (hne : ∃ x ∈ p.objective.coefficients, x ≠ 0) :
    ∃ q : Problem ℚ, ofText? (CommandLine.problemText p).toList = .ok q ∧ q.Restates p := by
  have hname := nameable_of_ofText? h
  have hshown : Display.shown p.objective.coefficients p.names ≠ [] := by
    obtain ⟨x, hx, hxne⟩ := hne
    rw [← List.map_fst_zip (Nat.le_of_eq hname.length_objective)] at hx
    obtain ⟨t, ht, rfl⟩ := List.mem_map.mp hx
    exact List.ne_nil_of_mem (List.mem_filter.mpr ⟨ht, by simpa using hxne⟩)
  exact ⟨Model.reread p, ofText?_of_words (Grammar.words_problemText hname hplaces)
    (Model.compile_printed hname hplaces hshown), Model.restates_reread hname.nodup_names hplaces⟩

/-- A text with a term that is zero, a variable whose terms cancel, and a row of constants. -/
def looseText : List Char := "min: 0.5x - y + 0z\nw + x - x ≥ -1.25\nc7: 3 = 4".toList

/-- The derivation of the text. -/
def looseDerivation : Grammar.Model :=
  let term (text : List Char) (v : String) : Grammar.Factor :=
    .product (Grammar.numberLeaf text) none (Grammar.nameLeaf v)
  let lone (v : String) : Grammar.Factor := .lone (Grammar.nameLeaf v)
  let goal : Grammar.Sum := ⟨none, term ['0', '.', '5'] "x",
    [.signed (Grammar.signLeaf true) (lone "y"), .signed (Grammar.signLeaf false) (term ['0'] "z")]⟩
  let row : Grammar.Sum := ⟨none, lone "w", [.signed (Grammar.signLeaf false) (lone "x"),
    .signed (Grammar.signLeaf true) (lone "x")]⟩
  let constant : Grammar.Sum := ⟨none, .constant (Grammar.numberLeaf ['3']), []⟩
  ⟨[], some ⟨.objective (Grammar.keywordLeaf .min) (some Grammar.colonLeaf) (some goal),
    [⟨Grammar.newlineLeaf, [], .constraint none (some row) (Grammar.relationLeaf .ge) none
        (Grammar.numberLeaf ['-', '1', '.', '2', '5'])⟩,
      ⟨Grammar.newlineLeaf, [], .constraint (some (Grammar.nameLeaf "c7", Grammar.colonLeaf))
        (some constant) (Grammar.relationLeaf .eq) none (Grammar.numberLeaf ['4'])⟩], []⟩⟩

def looseProblem : Problem ℚ :=
  { names := ["x", "y", "z", "w"]
    objective := ⟨[1 / 2, -1, 0, 0], .min⟩
    constraints := [⟨"c1", [0, 0, 0, 1], .ge, -5 / 4⟩, ⟨"c7", [0, 0, 0, 0], .eq, 1⟩]
    toggles := .none }

theorem ofText?_loose : ofText? looseText = .ok looseProblem := by
  have hwords : (Token.significant looseText).map Token.word =
      looseDerivation.tokens.map Token.word := by
    simp only [Token.significant, Token.scan_eq]
    decide +kernel
  exact ofText?_of_words hwords (by decide +kernel)

theorem ofText?_problemText_loose :
    ofText? looseText = .ok looseProblem ∧ looseProblem.HasFourPlaces ∧
      CommandLine.problemText looseProblem = "min: 0.5x - y\nc1: w ≥ -1.25\nc7: 0 = 1\n" ∧
      ∃ q, ofText? (CommandLine.problemText looseProblem).toList = .ok q ∧
        q.Restates looseProblem := by
  have hplaces : looseProblem.HasFourPlaces := by
    have hhalf : LinProg.HasFourPlaces 2⁻¹ := ⟨5000, by norm_num⟩
    have hminus : LinProg.HasFourPlaces (-1) := ⟨-10000, by norm_num⟩
    have hzero : LinProg.HasFourPlaces 0 := ⟨0, by norm_num⟩
    have hone : LinProg.HasFourPlaces 1 := ⟨10000, by norm_num⟩
    have hbound : LinProg.HasFourPlaces (-5 / 4) := ⟨-12500, by norm_num⟩
    constructor <;> simp [looseProblem, hhalf, hminus, hzero, hone, hbound]
  exact ⟨ofText?_loose, hplaces, by decide +kernel,
    ofText?_problemText ofText?_loose hplaces ⟨-1, by simp [looseProblem], by norm_num⟩⟩

end Problem
end LinProg
