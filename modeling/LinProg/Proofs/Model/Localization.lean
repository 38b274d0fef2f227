import LinProg.Proofs.Model.Spans
import LinProg.Proofs.Scalar.Rational

/-!
# Faults are found at the token that is wrong

Whether a text is a model is decided by its words: the kinds and texts of the tokens that are no
comments. What stands before the token at fault can be gone on with to the words of a model, and
with the token it cannot. A text is unfinished exactly if more words make it a model.
-/
namespace LinProg.Model
variable {K : Type} [Scalar K]

/-- The words are those of a text that is a model. -/
def Accepted (K : Type) [Scalar K] (words : List (Token.Kind × List Char)) : Prop :=
  ∃ text, ∃ m : Model K, ofText? text = .ok m ∧ (Token.significant text).map Token.word = words

theorem ofText?_eq_ok_iff {text : List Char} : (∃ m : Model K, ofText? text = .ok m) ↔
    ∃ sts : List (Statement K), Read.statements (Token.significant text) = .ok sts := by
  unfold ofText?
  cases Read.statements (K := K) (Token.significant text) <;> simp [Except.map]

/-- Tokens with the same words are read alike, wherever they stand. -/
theorem statements_congr {tokens others : List Token}
    (h : tokens.map Token.word = others.map Token.word) {sts : List (Statement K)}
    (hread : Read.statements tokens = .ok sts) :
    ∃ sts : List (Statement K), Read.statements others = .ok sts := by
  have htokens := Read.statements_move (K := K) (fun _ => 0) (fun _ => 0) tokens
  rw [Token.map_move_zero, h, ← Token.map_move_zero, Read.statements_move, hread] at htokens
  cases hothers : Read.statements (K := K) others with
  | ok sts => exact ⟨sts, rfl⟩
  | error e => simp [hothers, Except.map, Except.mapError] at htokens

theorem accepted_significant_iff (text : List Char) :
    Accepted K ((Token.significant text).map Token.word) ↔ ∃ m : Model K, ofText? text = .ok m := by
  constructor
  · rintro ⟨other, m, hm, hwords⟩
    obtain ⟨sts, hread⟩ := ofText?_eq_ok_iff.mp ⟨m, hm⟩
    exact ofText?_eq_ok_iff.mpr (statements_congr hwords hread)
  · rintro ⟨m, hm⟩
    exact ⟨text, m, hm, rfl⟩

/-- Any derivation whose tokens can be scanned is that of a text. -/
theorem accepted_of_possible {d : Grammar.Model} (h : ∀ t ∈ d.tokens, t.Possible) :
    Accepted K (d.tokens.map Token.word) := by
  obtain ⟨text, hwords⟩ := Token.exists_significant h
  have hread := Grammar.statements_tokens (K := K) d fun t ht hkind => (h t ht).hasValue hkind
  obtain ⟨m, hm⟩ := ofText?_eq_ok_iff.mpr (statements_congr hwords.symm hread)
  exact ⟨text, m, hm, hwords⟩

/-- What begins a derivation begins a model. -/
theorem exists_accepted {tokens : List Token} (h : ∀ t ∈ tokens, t.Possible)
    (hbegins : Grammar.Begins Grammar.Model.tokens tokens) :
    ∃ more, more ≠ [] ∧ Accepted K (tokens.map Token.word ++ more) := by
  obtain ⟨d, more, hne, hmore, hd⟩ := hbegins
  refine ⟨more.map Token.word, by simp [hne], ?_⟩
  rw [← List.map_append, ← hd]
  apply accepted_of_possible
  intro t ht
  rw [hd] at ht
  rcases List.mem_append.mp ht with ht | ht
  · exact h t ht
  · exact hmore t ht

/-- Nothing makes a model of the tokens before a fault and the token at fault. -/
theorem not_accepted_of_stops {before rest : List Token} {t : Token} {expected : Expected}
    (h : Grammar.Stops (Read.statements (K := K)) before expected (t :: rest))
    (more : List (Token.Kind × List Char)) :
    ¬ Accepted K (before.map Token.word ++ t.word :: more) := by
  rintro ⟨text, m, hm, hwords⟩
  obtain ⟨sts, hread⟩ := ofText?_eq_ok_iff.mp ⟨m, hm⟩
  obtain ⟨left, right, htokens, hleft, hright⟩ := List.map_eq_append_iff.mp hwords
  obtain ⟨u, after, rfl, hu, _⟩ := List.map_eq_cons_iff.mp hright
  have hsame : (Token.significant text).map Token.word =
      (before ++ t :: after).map Token.word := by
    rw [htokens, List.map_append, List.map_append, List.map_cons, List.map_cons, hleft, hu]
  obtain ⟨others, hok⟩ := statements_congr hsame hread
  have herror := h (t :: after) rfl
  rw [hok] at herror
  cases herror

/-- What stands before a token at fault begins a model, and with the token it does not. -/
theorem exists_of_unexpectedToken {text : List Char} {expected : Expected} {found : Token}
    (h : (ofText? text : Except ReadError (Model K)) = .error (.unexpectedToken expected found)) :
    ∃ before after, Token.significant text = before ++ found :: after ∧
      (∃ more, Accepted K (before.map Token.word ++ more)) ∧
      ∀ more, ¬ Accepted K (before.map Token.word ++ found.word :: more) := by
  obtain ⟨before, rest, cause, htokens, he, hstops, hbegins⟩ := ofText?_faulty h
  cases rest with
  | nil => cases he
  | cons t after =>
    cases he
    have hpossible (t : Token) (ht : t ∈ before) : t.Possible :=
      Token.possible_of_mem_significant (htokens ▸ List.mem_append_left _ ht)
    obtain ⟨more, _, hmore⟩ := exists_accepted (K := K) hpossible hbegins
    exact ⟨before, after, htokens, ⟨more, hmore⟩, not_accepted_of_stops hstops⟩

/-- A text ends too early exactly if its words are not those of a model, but more words make them
such. -/
theorem unexpectedEnd_iff (text : List Char) :
    (ofText? text : Except ReadError (Model K)) = .error .unexpectedEnd ↔
      ¬ Accepted K ((Token.significant text).map Token.word) ∧
        ∃ more, more ≠ [] ∧ Accepted K ((Token.significant text).map Token.word ++ more) := by
  constructor
  · intro h
    obtain ⟨before, rest, cause, htokens, he, _, hbegins⟩ := ofText?_faulty h
    cases rest with
    | nil =>
      rw [List.append_nil] at htokens
      rw [← htokens] at hbegins
      refine ⟨fun haccepted => ?_,
        exists_accepted (fun t ht => Token.possible_of_mem_significant ht) hbegins⟩
      obtain ⟨m, hm⟩ := (accepted_significant_iff text).mp haccepted
      rw [h] at hm
      cases hm
    | cons t after => cases he
  · rintro ⟨hnot, more, _, hmore⟩
    cases h : (ofText? text : Except ReadError (Model K)) with
    | ok m => exact absurd ((accepted_significant_iff text).mpr ⟨m, h⟩) hnot
    | error e =>
      obtain ⟨before, rest, cause, htokens, rfl, hstops, _⟩ := ofText?_faulty h
      cases rest with
      | nil => rfl
      | cons t after =>
        refine absurd ?_ (not_accepted_of_stops hstops (after.map Token.word ++ more))
        simpa [htokens] using hmore

/-- The numbers that are scanned have a value. -/
theorem ne_invalidNumber (text number : List Char) :
    (ofText? text : Except ReadError (Model K)) ≠ .error (.invalidNumber number) := by
  intro h
  obtain ⟨before, rest, cause, _, he, _⟩ := ofText?_faulty h
  cases rest <;> cases he

/-- A fault of a text is found at the first token that cannot be gone on with to a model, and at the
end of the text if no token is wrong but some are missing. It is never found in a number, and every
place that is shown for a fault lies in the text. -/
theorem ofText?_localizes_faults (K : Type) [Scalar K] (text : List Char) :
    let words := (Token.significant text).map Token.word
    (∀ expected found, (ofText? text : Except ReadError (Model K)) =
        .error (.unexpectedToken expected found) →
      ∃ before after, Token.significant text = before ++ found :: after ∧
        (∃ more, Accepted K (before.map Token.word ++ more)) ∧
        ∀ more, ¬ Accepted K (before.map Token.word ++ found.word :: more)) ∧
    ((ofText? text : Except ReadError (Model K)) = .error .unexpectedEnd ↔
      ¬ Accepted K words ∧ ∃ more, more ≠ [] ∧ Accepted K (words ++ more)) ∧
    (∀ number, (ofText? text : Except ReadError (Model K)) ≠ .error (.invalidNumber number)) ∧
    ∀ (e : ModelError) (span : Span),
      (Problem.ofText? text : Except ModelError (Problem K)) = .error e → e.span? = some span →
        span.LiesIn text := by
  intro words
  exact ⟨fun _ _ => exists_of_unexpectedToken, unexpectedEnd_iff text, ne_invalidNumber text,
    fun e _ h hspan => e.span_liesIn (K := K) h hspan⟩

/-- Two names without a sign between them, of which the second is wrong. -/
def adjacentNames : List Char := "x y <= 1".toList

def secondName : Token := ⟨.ident, ⟨2, 3⟩, ['y']⟩

/-- A product that lacks its name. -/
def openProduct : List Char := "2 *".toList

theorem significant_faultyLines :
    Token.significant adjacentNames = [⟨.ident, ⟨0, 1⟩, ['x']⟩, secondName,
      ⟨.le, ⟨4, 6⟩, ['<', '=']⟩, ⟨.number, ⟨7, 8⟩, ['1']⟩] ∧
    Token.significant openProduct = [⟨.number, ⟨0, 1⟩, ['2']⟩, ⟨.star, ⟨2, 3⟩, ['*']⟩] := by
  simp only [Token.significant, Token.scan_eq]
  decide +kernel

theorem ofText?_faultyLines :
    (ofText? adjacentNames : Except ReadError (Model ℚ)) =
        .error (.unexpectedToken .relation secondName) ∧
      (ofText? openProduct : Except ReadError (Model ℚ)) = .error .unexpectedEnd := by
  obtain ⟨hnames, hproduct⟩ := significant_faultyLines
  have htwo : Literal.value? ['2'] = some (2 : ℚ) := by decide +kernel
  constructor
  · simp [ofText?, hnames, secondName, Read.statements_eq (_ :: _), Token.isSeparator,
      Read.statement, Read.constraint, Read.label?, Read.terms_eq _ (_ :: _), Read.termStart?,
      Read.factor, Read.named, Read.relation?, Except.map]
  · simp [ofText?, hproduct, Read.statements_eq (_ :: _), Token.isSeparator, Read.statement,
      Read.constraint, Read.label?, Read.terms_eq _ (_ :: _), Read.termStart?, Read.factor,
      Read.number, htwo, Read.afterNumber, Read.named, Except.map]

theorem ofText?_localizes_faults_faultyLines :
    ((ofText? adjacentNames : Except ReadError (Model ℚ)) =
        .error (.unexpectedToken .relation secondName) ∧
      (∃ more, Accepted ℚ ((.ident, ['x']) :: more)) ∧
      ∀ more, ¬ Accepted ℚ ((.ident, ['x']) :: (.ident, ['y']) :: more)) ∧
    (ofText? openProduct : Except ReadError (Model ℚ)) = .error .unexpectedEnd ∧
      ∃ more, more ≠ [] ∧ Accepted ℚ ((.number, ['2']) :: (.star, ['*']) :: more) := by
  obtain ⟨hnames, hproduct⟩ := ofText?_faultyLines
  refine ⟨⟨hnames, ?_⟩, hproduct, ?_⟩
  · obtain ⟨before, after, htokens, hbegins, hnone⟩ :=
      (ofText?_localizes_faults ℚ adjacentNames).1 _ _ hnames
    have hbefore : before.map Token.word = [(.ident, ['x'])] := by
      rw [significant_faultyLines.1] at htokens
      -- the token at fault occurs once
      simp [secondName, List.cons_eq_append_iff] at htokens
      simp [htokens, Token.word]
    rw [hbefore] at hbegins hnone
    exact ⟨hbegins, hnone⟩
  · have hend := ((ofText?_localizes_faults ℚ openProduct).2.1.mp hproduct).2
    rw [significant_faultyLines.2] at hend
    exact hend

end LinProg.Model
