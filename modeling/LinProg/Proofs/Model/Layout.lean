import LinProg.Proofs.Model.Joining
import LinProg.Proofs.Model.Seams

/-!
# Layout plays no part in reading

Blanks, and a closed comment behind blanks, can be put between any two tokens. The tokens that
matter stay the same words, those behind are moved by as many bytes as are put in, and the text
reads as the same model or has the same fault, whose places are moved alike.

Behind a comment that only the end of its line or of the text ends, nothing can be put in: it would
become a part of the comment.
-/
namespace LinProg

/-- Blanks, at least one, behind which a closed block comment and more blanks may stand. -/
inductive IsSpacing : List Char → Prop
  | blanks {blanks : List Char} : blanks ≠ [] → (∀ c ∈ blanks, Token.isGap c = true) →
      IsSpacing blanks
  | comment {blanks remark more : List Char} : blanks ≠ [] →
      (∀ c ∈ blanks, Token.isGap c = true) → ¬ ['*', '/'] <:+: remark →
      (∀ c ∈ more, Token.isGap c = true) →
      IsSpacing (blanks ++ '/' :: '*' :: (remark ++ '*' :: '/' :: more))

theorem IsSpacing.breaks {w : List Char} (h : IsSpacing w) (text : List Char) :
    Breaks (w ++ text) := by
  have hblank {blanks : List Char} (hne : blanks ≠ []) (hgap : ∀ c ∈ blanks, Token.isGap c = true)
      (rest : List Char) : Breaks (blanks ++ rest) := by
    obtain ⟨c, blanks, rfl⟩ := List.exists_cons_of_ne_nil hne
    exact (breaks_cons ..).mpr (by simp [Token.isBreak, hgap c List.mem_cons_self])
  cases h with
  | blanks hne hgap => exact hblank hne hgap text
  | comment hne hgap _ _ =>
    rw [List.append_assoc]
    exact hblank hne hgap _

/-- A block comment ends at the first closing mark. -/
theorem Lexeme.blockBody_closed {remark : List Char} (h : ¬ ['*', '/'] <:+: remark)
    (rest : List Char) :
    blockBody (remark ++ '*' :: '/' :: rest) = (remark ++ ['*', '/'], rest) := by
  induction remark with
  | nil => rfl
  | cons c remark ih =>
    have hrest : ¬ ['*', '/'] <:+: remark := fun hinfix => h (List.infix_cons hinfix)
    have hnext : ∀ r, c = '*' → remark ++ '*' :: '/' :: rest = '/' :: r → False := by
      rintro r rfl hr
      cases remark with
      | nil => simp at hr
      | cons d remark =>
        have hd : d = '/' := (List.cons.inj hr).1
        exact h ⟨[], remark, by simp [hd]⟩
    rw [List.cons_append, blockBody.eq_2 _ _ hnext, ih hrest]
    rfl

namespace Token

/-- Before other text, spacing holds no token that matters. -/
theorem filter_scan_spacing {w : List Char} (h : IsSpacing w) (offset : ℕ) (text : List Char) :
    (scan offset (w ++ text)).filter (·.kind != .comment) =
      (scan (offset + byteLength w) text).filter (·.kind != .comment) := by
  cases h with
  | blanks _ hgap => rw [scan_blanks hgap]
  | @comment blanks remark more _ hgap hremark hmore =>
    have hlexeme : Lexeme.ofChars '/' ('*' :: (remark ++ '*' :: '/' :: (more ++ text))) =
        ⟨.comment, '*' :: (remark ++ ['*', '/']), more ++ text⟩ := by
      simp [Lexeme.ofChars, Lexeme.ofSlash, Lexeme.blockBody_closed hremark]
    have hscan := scan_cons (c := '/') rfl (offset + byteLength blanks)
      ('*' :: (remark ++ '*' :: '/' :: (more ++ text)))
    rw [hlexeme] at hscan
    simp only [scan_blanks hmore] at hscan
    have hstop : offset + byteLength (blanks ++ '/' :: '*' :: (remark ++ '*' :: '/' :: more)) =
        offset + byteLength blanks + byteLength ('/' :: '*' :: (remark ++ ['*', '/'])) +
          byteLength more := by
      simp [Nat.add_assoc]
    simp only [List.append_assoc, List.cons_append, scan_blanks hgap, hscan, hstop]
    rw [List.filter_cons_of_neg (by simp)]

/-- A comment that ends only with its line, or only with the text. -/
def IsUnclosed (t : Token) : Prop :=
  (∃ body, t.text = '/' :: '/' :: body) ∨
    ∃ body, t.text = '/' :: '*' :: body ∧ ¬ ['*', '/'] <:+: body

theorem isUnclosed_of_commentGoesOn {t : Token} {more : List Char}
    (h : CommentGoesOn t.text more) : t.IsUnclosed := by
  rcases h with hblock | ⟨hline, _⟩
  · exact .inr hblock
  · exact .inl hline

end Token

/-- A block comment without its mark leaves nothing of the text. -/
theorem Lexeme.blockBody_rest_eq_nil {text : List Char}
    (h : ¬ ['*', '/'] <:+: (blockBody text).1) : (blockBody text).2 = [] := by
  fun_induction blockBody text with
  | case1 rest => exact absurd (List.infix_refl _) h
  | case2 c rest hmark ih => exact ih fun hinfix => h (List.infix_cons hinfix)
  | case3 => rfl

/-- What is left behind a comment that is not closed begins with the end of its line. -/
theorem Lexeme.head_rest_of_isUnclosed {kind : Token.Kind} {span : Span} {rest : List Char}
    (h : Token.IsUnclosed ⟨kind, span, '/' :: (ofSlash rest).body⟩) :
    ∀ d ∈ (ofSlash rest).rest.head?, d = '\n' := by
  fun_cases ofSlash rest with
  | case1 line =>
    intro d hd
    have hnot := List.head?_dropWhile_not (· != '\n') line
    rw [Option.mem_def.mp hd] at hnot
    simpa using hnot
  | case2 block =>
    have hopen : ¬ ['*', '/'] <:+: (blockBody block).1 := by
      obtain ⟨body, hbody⟩ | ⟨body, hbody, hopen⟩ := h
      · simp [ofSlash] at hbody
      · simp only [ofSlash, List.cons.injEq, true_and] at hbody
        rwa [hbody]
    simp [blockBody_rest_eq_nil hopen]
  | case3 rest hslash hstar =>
    rw [ofSlash.eq_3 _ hslash hstar] at h
    simp [Token.IsUnclosed] at h

namespace Token

/-- A last token that is not closed ends with the text. -/
theorem stop_of_isUnclosed {offset : ℕ} {text : List Char} {t : Token}
    (ht : t ∈ (scan offset text).getLast?) (h : t.IsUnclosed) :
    t.span.stop = offset + byteLength text := by
  fun_induction scan offset text with
  | case1 => simp at ht
  | case2 offset c rest hgap ih => rw [ih ht, byteLength_cons, Nat.add_assoc]
  | case3 offset c rest hgap lexeme text stop ih =>
    have hstop : stop + byteLength lexeme.rest = offset + byteLength (c :: rest) := by
      rw [Nat.add_assoc, ← byteLength_append, List.cons_append, Lexeme.ofChars_append]
    cases hrest : scan stop lexeme.rest with
    | nil =>
      rw [hrest] at ht
      obtain rfl : _ = t := by simpa using ht
      have hc : c = '/' := by
        obtain ⟨body, hbody⟩ | ⟨body, hbody, _⟩ := h <;> exact (List.cons.inj hbody).1
      subst hc
      have hline : ∀ d ∈ lexeme.rest.head?, d = '\n' := Lexeme.head_rest_of_isUnclosed h
      have hnil : lexeme.rest = [] := by
        cases hleft : lexeme.rest with
        | nil => rfl
        | cons d left =>
          obtain rfl : d = '\n' := hline d (by rw [hleft]; exact Option.mem_some_self _)
          rw [hleft, scan_cons rfl] at hrest
          simp at hrest
      rw [hnil] at hstop
      exact hstop
    | cons u more =>
      rw [← hstop]
      exact ih (by rwa [hrest, List.getLast?_cons_cons, ← hrest] at ht)

/-- Where a span starts after so many bytes are put in at a byte. -/
def startAfter (byte count : ℕ) (start : ℕ) : ℕ := if byte ≤ start then start + count else start

/-- Where a span stops after so many bytes are put in at a byte. -/
def stopAfter (byte count : ℕ) (stop : ℕ) : ℕ := if byte < stop then stop + count else stop

/-- The two parts of a text meet between two tokens, and nothing that is put there becomes part of
a comment before. -/
structure Separates (a b : List Char) : Prop where
  isSeam : IsSeam 0 a b
  not_isUnclosed : ∀ t ∈ scan 0 (a ++ b), t.span.stop = byteLength a → ¬ t.IsUnclosed

variable {a b w : List Char}

theorem move_of_mem_before {t : Token} (ht : t ∈ scan 0 a) (count : ℕ) :
    t.move (startAfter (byteLength a) count) (stopAfter (byteLength a) count) = t := by
  obtain ⟨_, hstop⟩ := inside_of_mem_scan ht
  have hlt := start_lt_stop_of_mem_scan ht
  have hstart : ¬ byteLength a ≤ t.span.start := by omega
  have hend : ¬ byteLength a < t.span.stop := by omega
  rw [move, Span.move, startAfter, stopAfter, if_neg hstart, if_neg hend]

theorem move_of_mem_behind {offset : ℕ} {t : Token} (ht : t ∈ scan offset b) (count : ℕ) :
    t.move (startAfter offset count) (stopAfter offset count) =
      t.move (· + count) (· + count) := by
  obtain ⟨hstart, _⟩ := inside_of_mem_scan ht
  have hlt := start_lt_stop_of_mem_scan ht
  rw [move, move, Span.move, Span.move, startAfter, stopAfter, if_pos hstart,
    if_pos (Nat.lt_of_le_of_lt hstart hlt)]

/-- The tokens that matter are moved by what is put between two of them, and do not change. -/
theorem significant_insert (h : Separates a b) (hw : IsSpacing w) :
    significant (a ++ (w ++ b)) = (significant (a ++ b)).map (move
      (startAfter (byteLength a) (byteLength w)) (stopAfter (byteLength a) (byteLength w))) := by
  have hbreaks := hw.breaks b
  have hsplit := scan_append_of_isSeam h.isSeam
  rw [Nat.zero_add] at hsplit
  have hlast : ∀ t ∈ (scan 0 a).getLast?, ¬ CommentGoesOn t.text (w ++ b) := by
    intro t ht hgoes
    have hopen := isUnclosed_of_commentGoesOn hgoes
    have hmem : t ∈ scan 0 (a ++ b) := by
      rw [hsplit]
      exact List.mem_append_left _ (List.mem_of_getLast? ht)
    refine h.not_isUnclosed t hmem ?_ hopen
    rw [stop_of_isUnclosed ht hopen, Nat.zero_add]
  have hbefore := List.map_congr_left (l := scan 0 a) fun t ht =>
    move_of_mem_before ht (byteLength w)
  have hbehind := List.map_congr_left (l := scan (byteLength a) b) fun t ht =>
    move_of_mem_behind ht (byteLength w)
  have hmap (σ τ : ℕ → ℕ) (tokens : List Token) :
      (tokens.filter (·.kind != .comment)).map (move σ τ) =
        (tokens.map (move σ τ)).filter (·.kind != .comment) := by
    rw [List.filter_map]
    rfl
  rw [significant, significant, hmap, hsplit, List.map_append, hbefore, hbehind, ← scan_move,
    scan_append hbreaks hlast, List.filter_append, List.filter_append, Nat.zero_add,
    filter_scan_spacing hw, List.map_id' _]

end Token

variable {K : Type}

/-- The model with all its spans moved. -/
def Model.move (σ τ : ℕ → ℕ) (m : Model K) : Model K := ⟨m.statements.map (Statement.move σ τ)⟩

/-- The fault with its span moved. -/
def CompileError.move (σ τ : ℕ → ℕ) : CompileError → CompileError
  | .missingObjective span => .missingObjective (span.move σ τ)
  | .duplicateObjective span => .duplicateObjective (span.move σ τ)
  | .duplicateConstraint name span => .duplicateConstraint name (span.move σ τ)
  | .constantInObjective span => .constantInObjective (span.move σ τ)
  | .emptyObjective span => .emptyObjective (span.move σ τ)

namespace Model

theorem namedConstraints_move (σ τ : ℕ → ℕ) (taken : List String) (sts : List (Statement K)) :
    namedConstraints taken (sts.map (Statement.move σ τ)) =
      ((namedConstraints taken sts).map
        (List.map (Prod.map id (ConstraintStatement.move σ τ)))).mapError
          (CompileError.move σ τ) := by
  induction sts generalizing taken with
  | nil => rfl
  | cons s rest ih =>
    cases s with
    | objective o => rfl
    | constraint c =>
      simp only [List.map_cons, Statement.move, namedConstraints, ConstraintStatement.move, ih]
      split
      · rfl
      · cases namedConstraints _ rest <;> rfl

theorem objectiveFault?_move (σ τ : ℕ → ℕ) (o : ObjectiveStatement K) :
    objectiveFault? (o.move σ τ) = (objectiveFault? o).map (CompileError.move σ τ) := by
  have hfind : (o.move σ τ).terms.find? Term.isConstant =
      (o.terms.find? Term.isConstant).map (Term.move σ τ) := List.find?_map ..
  unfold objectiveFault?
  rw [hfind]
  cases o.terms.find? Term.isConstant with
  | some t => rfl
  | none =>
    simp only [Option.map_none, ObjectiveStatement.move, List.isEmpty_map]
    split <;> rfl

variable [Scalar K]

theorem coefficientOf_move (σ τ : ℕ → ℕ) (terms : List (Term K)) :
    coefficientOf (terms.map (Term.move σ τ)) = coefficientOf terms := by
  funext name
  exact List.foldl_map ..

theorem constantOf_move (σ τ : ℕ → ℕ) (terms : List (Term K)) :
    constantOf (terms.map (Term.move σ τ)) = constantOf terms := List.foldl_map ..

theorem problemOf_move (σ τ : ℕ → ℕ) (o : ObjectiveStatement K)
    (named : List (String × ConstraintStatement K)) :
    problemOf (o.move σ τ) (named.map (Prod.map id (ConstraintStatement.move σ τ))) =
      problemOf o named := by
  have hterms : (o.move σ τ).terms ++
        (named.map (Prod.map id (ConstraintStatement.move σ τ))).flatMap (fun c => c.2.terms) =
      (o.terms ++ named.flatMap fun c => c.2.terms).map (Term.move σ τ) := by
    simp [ObjectiveStatement.move, ConstraintStatement.move, List.flatMap_map, List.map_flatMap]
  have hnames (terms : List (Term K)) :
      (terms.map (Term.move σ τ)).filterMap Term.name = terms.filterMap Term.name :=
    List.filterMap_map ..
  simp only [problemOf, hterms, hnames, List.map_map]
  simp [ObjectiveStatement.move, ConstraintStatement.move, coefficientOf_move, constantOf_move,
    constraintOf, Function.comp_def]

/-- Moving the spans of a model moves the spans of its faults and does nothing else. -/
theorem compile_move (σ τ : ℕ → ℕ) {m : Model K} (h : m.statements ≠ []) :
    (m.move σ τ).compile = m.compile.mapError (CompileError.move σ τ) := by
  obtain ⟨sts⟩ := m
  match sts with
  | [] => exact absurd rfl h
  | .constraint c :: rest => rfl
  | .objective o :: rest =>
    simp only [move, compile, List.map_cons, Statement.move, objectiveFault?_move,
      namedConstraints_move]
    cases objectiveFault? o with
    | some e => rfl
    | none =>
      cases namedConstraints [] rest with
      | error e => rfl
      | ok named => simp [Except.map, Except.mapError, problemOf_move]

theorem compile_move_eq_ok_iff (σ τ : ℕ → ℕ) {m : Model K} {p : Problem K} :
    (m.move σ τ).compile = .ok p ↔ m.compile = .ok p := by
  by_cases h : m.statements = []
  · simp [compile, move, h]
  · rw [compile_move σ τ h]
    cases m.compile <;> simp [Except.mapError]

/-- Spacing between two tokens changes neither the words of a text nor the model that it reads as
nor the problem that it states; what follows is only moved. -/
theorem ofText?_insert {a b w : List Char} (h : Token.Separates a b) (hw : IsSpacing w) :
    let σ := Token.startAfter (byteLength a) (byteLength w)
    let τ := Token.stopAfter (byteLength a) (byteLength w)
    (Token.significant (a ++ (w ++ b))).map Token.word =
        (Token.significant (a ++ b)).map Token.word ∧
      (ofText? (a ++ (w ++ b)) : Except ReadError (Model K)) =
        ((ofText? (a ++ b)).map (move σ τ)).mapError (ReadError.move σ τ) ∧
      ∀ p : Problem K, Problem.ofText? (a ++ (w ++ b)) = .ok p ↔
        Problem.ofText? (a ++ b) = .ok p := by
  intro σ τ
  have htokens := Token.significant_insert h hw
  have hread : (ofText? (a ++ (w ++ b)) : Except ReadError (Model K)) =
      ((ofText? (a ++ b)).map (move σ τ)).mapError (ReadError.move σ τ) := by
    unfold ofText?
    rw [htokens, Read.statements_move]
    cases Read.statements (K := K) (Token.significant (a ++ b)) <;> rfl
  refine ⟨?_, hread, ?_⟩
  · rw [htokens, List.map_map]
    rfl
  · intro p
    rw [Problem.ofText?, Problem.ofText?, hread]
    cases (ofText? (a ++ b) : Except ReadError (Model K)) with
    | error e => simp [Except.map, Except.mapError]
    | ok m =>
      have hcompile := compile_move_eq_ok_iff (K := K) σ τ (m := m) (p := p)
      simp only [Except.map, Except.mapError]
      cases hmoved : (m.move σ τ).compile <;> cases hm : m.compile <;> simp_all

/-- An objective up to its coefficient, and what is left of its line. -/
def goalStart : List Char := "max: 2".toList

def goalRest : List Char := "é; // β".toList

def remarkSpacing : List Char := " /* γ */\t".toList

theorem separates_goal : Token.Separates goalStart goalRest := by
  have hscan : Token.scan 0 (goalStart ++ goalRest) =
      [⟨.max, ⟨0, 3⟩, ['m', 'a', 'x']⟩, ⟨.colon, ⟨3, 4⟩, [':']⟩, ⟨.number, ⟨5, 6⟩, ['2']⟩,
        ⟨.ident, ⟨6, 8⟩, ['é']⟩, ⟨.semicolon, ⟨8, 9⟩, [';']⟩,
        ⟨.comment, ⟨10, 15⟩, ['/', '/', ' ', 'β']⟩] := by
    rw [Token.scan_eq]
    decide +kernel
  have hbytes : byteLength goalStart = 6 := by decide +kernel
  constructor
  · simp [Token.IsSeam, hscan, hbytes]
  · simp [hscan, hbytes, Token.IsUnclosed]

theorem ofText?_insert_remark : Token.Separates goalStart goalRest ∧ IsSpacing remarkSpacing ∧
    ofText? (goalStart ++ (remarkSpacing ++ goalRest)) =
      .ok (⟨[.objective ⟨⟨0, 18⟩, .max, [⟨⟨5, 18⟩, 2, some "é"⟩]⟩]⟩ : Model ℚ) := by
  have hspacing : IsSpacing remarkSpacing :=
    @IsSpacing.comment [' '] [' ', 'γ', ' '] ['\t'] (by simp) (by simp [Token.isGap]) (by decide)
      (by simp [Token.isGap])
  have hgoal : ofText? (goalStart ++ goalRest) = .ok remarkedGoalModel := ofText?_lines.1
  have hbytes : byteLength goalStart = 6 ∧ byteLength remarkSpacing = 10 := by decide +kernel
  have hinsert := (ofText?_insert (K := ℚ) separates_goal hspacing).2.1
  rw [hgoal, hbytes.1, hbytes.2] at hinsert
  exact ⟨separates_goal, hspacing, hinsert⟩

end Model
end LinProg
