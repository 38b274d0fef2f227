import LinProg.Proofs.Model.Breaks
import LinProg.Proofs.Model.Parsing
import LinProg.Proofs.Scalar.Rational

/-!
# A model is read line by line

A line end separates statements and tokens alike. Lines that are a model by themselves do not
change how those after them are read: what is read of these is only moved behind them.
-/
namespace LinProg
variable {K : Type} [Scalar K]

namespace Grammar

/-- Behind a separator, a list of statements goes on as if nothing stood before. -/
theorem statements_append_separator {tokens : List Token} {sts : List (LinProg.Statement K)}
    (hlegible : Legible tokens) (h : Read.statements tokens = .ok sts) (sep : Separator)
    (more : List Token) :
    Read.statements (tokens ++ sep.val :: more) = (Read.statements more).map (sts ++ ·) := by
  fun_induction Read.statements (K := K) tokens generalizing sts with
  | case1 tokens hdrop =>
    cases h
    obtain ⟨leading, hleading⟩ := exists_separators tokens
    rw [hdrop, List.append_nil] at hleading
    have hseparators : tokens ++ sep.val :: more = separators (leading ++ [sep]) ++ more := by
      simp [hleading, separators]
    rw [hseparators, statements_separators]
    cases Read.statements (K := K) more <;> rfl
  | case2 => cases h
  | case3 => cases h
  | case4 => cases h
  | case5 tokens t rest hdrop st left hs last he others hothers ih =>
    cases h
    obtain ⟨d, hd, rfl⟩ := statement_eq_ok hs
    obtain ⟨leading, hleading⟩ := exists_separators tokens
    rw [hdrop, hd] at hleading
    rw [hleading] at hlegible ⊢
    rcases endStatement_eq_ok he with ⟨rfl, rfl⟩ | ⟨u, rfl⟩
    · have hothers' := hothers.symm.trans (statements_of_separators [])
      cases hothers'
      have hcons := statements_cons (K := K) leading d sep hlegible.right.left more
      simpa using hcons
    · have hcons := statements_cons (K := K) leading d u hlegible.right.left
        (last ++ sep.val :: more)
      have hlast : Legible last := fun t ht =>
        hlegible t (by simp [ht])
      rw [ih hlast hothers] at hcons
      cases hmore : Read.statements (K := K) more <;> simpa [hmore, Except.map] using hcons

end Grammar

/-- The text ends inside a block comment that lacks its closing mark. -/
def Token.EndsInOpenComment (text : List Char) : Prop :=
  ∃ t ∈ (scan 0 text).getLast?, ∃ body, t.text = '/' :: '*' :: body ∧ ¬ ['*', '/'] <:+: body

namespace Token

/-- The newline at the given byte. -/
def newlineAt (offset : ℕ) : Token := ⟨.newline, ⟨offset, offset + 1⟩, ['\n']⟩

theorem scan_newline (offset : ℕ) (text : List Char) :
    scan offset ('\n' :: text) = newlineAt offset :: scan (offset + 1) text := by
  rw [scan_cons rfl]
  rfl

theorem significant_newline {a : List Char} (hopen : ¬ EndsInOpenComment a) (b : List Char) :
    let shift := (· + (byteLength a + 1))
    significant (a ++ '\n' :: b) = significant a ++
      newlineAt (byteLength a) :: (significant b).map (Token.move shift shift) := by
  intro shift
  have hlast : ∀ t ∈ (scan 0 a).getLast?, ¬ CommentGoesOn t.text ('\n' :: b) := by
    rintro t ht (hblock | ⟨_, c, hc, hne⟩)
    · exact hopen ⟨t, ht, hblock⟩
    · exact hne (by simpa using hc.symm)
  have hbreaks : Breaks ('\n' :: b) := (breaks_cons ..).mpr rfl
  have hscan := scan_append hbreaks hlast
  rw [scan_newline, Nat.add_assoc, scan_move] at hscan
  rw [significant, hscan, List.filter_append, List.filter_cons_of_pos rfl, List.filter_map,
    Nat.zero_add]
  rfl

end Token

namespace Model

/-- Lines after a model are read as if nothing stood before them, and what is read of them is moved
behind the model. -/
theorem ofText?_append_newline {a : List Char} {m : Model K} (h : ofText? a = .ok m)
    (hopen : ¬ Token.EndsInOpenComment a) (b : List Char) :
    let shift := (· + (byteLength a + 1))
    (∀ n : Model K, ofText? b = .ok n → ofText? (a ++ '\n' :: b) =
      .ok ⟨m.statements ++ n.statements.map (Statement.move shift shift)⟩) ∧
    ∀ e, (ofText? b : Except ReadError (Model K)) = .error e →
      (ofText? (a ++ '\n' :: b) : Except ReadError (Model K)) = .error (e.move shift shift) := by
  intro shift
  unfold ofText? at h ⊢
  rw [Token.significant_newline hopen]
  cases hread : (Read.statements (Token.significant a) :
      Except ReadError (List (Statement K))) with
  | error e => simp [hread, Except.map] at h
  | ok sts =>
    have hm : m = ⟨sts⟩ := by simpa [hread, Except.map, eq_comm] using h
    have hjoin := Grammar.statements_append_separator (Grammar.legible_significant a) hread
      ⟨Token.newlineAt (byteLength a), by simp [Token.newlineAt]⟩
      ((Token.significant b).map (Token.move shift shift))
    rw [hjoin, Read.statements_move, hm]
    cases Read.statements (K := K) (Token.significant b) with
    | error e => simp [Except.map, Except.mapError]
    | ok others => simp [Except.map, Except.mapError]

/-- An objective and a remark in whose line it stands. Two of the characters have two bytes. -/
def remarkedGoal : List Char := "max: 2é; // β".toList

def remarkedGoalModel : Model ℚ := ⟨[.objective ⟨⟨0, 8⟩, .max, [⟨⟨5, 8⟩, 2, some "é"⟩]⟩]⟩

def boundLine : List Char := "/* α */ 1 ≥ -1".toList

def boundModel : Model ℚ := ⟨[.constraint ⟨⟨9, 17⟩, none, [⟨⟨9, 10⟩, 1, none⟩], .ge, -1⟩]⟩

/-- A line without a right-hand side. -/
def relationLine : List Char := "/* α */ = ≤".toList

/-- The fault of the line: the second relation stands where a number is expected. -/
def relationFault (start : ℕ) : ReadError :=
  .unexpectedToken .number ⟨.le, ⟨start, start + 3⟩, ['≤']⟩

theorem significant_lines :
    Token.significant remarkedGoal =
      [⟨.max, ⟨0, 3⟩, ['m', 'a', 'x']⟩, ⟨.colon, ⟨3, 4⟩, [':']⟩, ⟨.number, ⟨5, 6⟩, ['2']⟩,
        ⟨.ident, ⟨6, 8⟩, ['é']⟩, ⟨.semicolon, ⟨8, 9⟩, [';']⟩] ∧
    Token.significant boundLine =
      [⟨.number, ⟨9, 10⟩, ['1']⟩, ⟨.ge, ⟨11, 14⟩, ['≥']⟩, ⟨.number, ⟨15, 17⟩, ['-', '1']⟩] ∧
    Token.significant relationLine = [⟨.eq, ⟨9, 10⟩, ['=']⟩, ⟨.le, ⟨11, 14⟩, ['≤']⟩] := by
  simp only [Token.significant, Token.scan_eq]
  decide +kernel

theorem ofText?_lines :
    ofText? remarkedGoal = .ok remarkedGoalModel ∧ ofText? boundLine = .ok boundModel ∧
      (ofText? relationLine : Except ReadError (Model ℚ)) = .error (relationFault 11) := by
  obtain ⟨hgoal, hbound, hrelation⟩ := significant_lines
  have hend : Read.statements [] = .ok ([] : List (Statement ℚ)) :=
    Grammar.statements_of_separators []
  have htwo : Literal.value? ['2'] = some (2 : ℚ) := by decide +kernel
  have hone : Literal.value? ['1'] = some (1 : ℚ) := by decide +kernel
  have hminus : Literal.value? ['-', '1'] = some (-1 : ℚ) := by decide +kernel
  -- sums and statements are unfolded only where a token is left of them
  refine ⟨?_, ?_, ?_⟩
  · simp [ofText?, hgoal, Read.statements_eq (_ :: _), hend, Token.isSeparator, Read.statement,
      Read.objective, Read.skipColon, Read.senseOf, Read.terms_eq _ (_ :: _), Read.termStart?,
      Read.factor, Read.number, htwo, Read.afterNumber, Read.named, Read.nextStart,
      Read.termsStop, Read.signed, Read.endStatement, Except.map, remarkedGoalModel]
  · simp [ofText?, hbound, Read.statements_eq (_ :: _), hend, Token.isSeparator, Read.statement,
      Read.constraint, Read.label?, Read.terms_eq _ (_ :: _), Read.termStart?, Read.factor,
      Read.number, hone, hminus, Read.afterNumber, Read.relation?, Read.signedNumber,
      Read.skipSign, Read.nextStart, Read.signed, Read.endStatement, Except.map, boundModel]
  · simp [ofText?, hrelation, Read.statements_eq (_ :: _), Token.isSeparator, Read.statement,
      Read.constraint, Read.label?, Read.terms_eq _ (_ :: _), Read.termStart?, Read.relation?,
      Read.signedNumber, Read.skipSign, Except.map, relationFault]

theorem ofText?_append_newline_remarkedGoal :
    ofText? remarkedGoal = .ok remarkedGoalModel ∧ ¬ Token.EndsInOpenComment remarkedGoal ∧
      ofText? (remarkedGoal ++ '\n' :: boundLine) = .ok ⟨remarkedGoalModel.statements ++
        boundModel.statements.map (Statement.move (· + 16) (· + 16))⟩ ∧
      (ofText? (remarkedGoal ++ '\n' :: relationLine) : Except ReadError (Model ℚ)) =
        .error (relationFault 27) := by
  obtain ⟨hgoal, hbound, hrelation⟩ := ofText?_lines
  have hopen : ¬ Token.EndsInOpenComment remarkedGoal := by
    have hlast : (Token.scan 0 remarkedGoal).getLast? =
        some ⟨.comment, ⟨10, 15⟩, ['/', '/', ' ', 'β']⟩ := by
      rw [Token.scan_eq]
      decide +kernel
    simp [Token.EndsInOpenComment, hlast]
  have hbounds := (ofText?_append_newline hgoal hopen boundLine).1 _ hbound
  have hfault := (ofText?_append_newline hgoal hopen relationLine).2 _ hrelation
  exact ⟨hgoal, hopen, hbounds, hfault⟩

end Model
end LinProg
