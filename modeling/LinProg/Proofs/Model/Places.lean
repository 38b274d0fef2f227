import LinProg.Model.Read
import Mathlib.Tactic.Common

/-!
# Places play no part in reading

Where the tokens of a text stand decides nothing. If the starts and the ends of all spans are moved,
each by a function of its own, then the readers return the same statements or the same fault, whose
spans are moved alike.
-/
namespace LinProg
variable {K : Type}

def Span.move (σ τ : ℕ → ℕ) (s : Span) : Span := ⟨σ s.start, τ s.stop⟩

/-- The token with its span moved. -/
def Token.move (σ τ : ℕ → ℕ) (t : Token) : Token := { t with span := t.span.move σ τ }

def Term.move (σ τ : ℕ → ℕ) (t : Term K) : Term K := { t with span := t.span.move σ τ }

def ObjectiveStatement.move (σ τ : ℕ → ℕ) (o : ObjectiveStatement K) : ObjectiveStatement K :=
  { o with span := o.span.move σ τ, terms := o.terms.map (Term.move σ τ) }

def ConstraintStatement.move (σ τ : ℕ → ℕ) (c : ConstraintStatement K) : ConstraintStatement K :=
  { c with span := c.span.move σ τ, terms := c.terms.map (Term.move σ τ) }

/-- The statement with its span and those of its terms moved. -/
def Statement.move (σ τ : ℕ → ℕ) : Statement K → Statement K
  | .objective o => .objective (o.move σ τ)
  | .constraint c => .constraint (c.move σ τ)

/-- The fault at the token with its span moved. -/
def ReadError.move (σ τ : ℕ → ℕ) : ReadError → ReadError
  | .unexpectedToken expected found => .unexpectedToken expected (found.move σ τ)
  | e => e

section
variable (σ τ : ℕ → ℕ)

@[simp] theorem Token.move_kind (t : Token) : (t.move σ τ).kind = t.kind := rfl

@[simp] theorem Token.move_text (t : Token) : (t.move σ τ).text = t.text := rfl

@[simp] theorem Token.move_start (t : Token) : (t.move σ τ).span.start = σ t.span.start := rfl

@[simp] theorem Token.move_stop (t : Token) : (t.move σ τ).span.stop = τ t.span.stop := rfl

@[simp] theorem Token.move_isSeparator (t : Token) :
    (t.move σ τ).isSeparator = t.isSeparator := rfl

@[simp] theorem Token.move_isNegative (t : Token) : (t.move σ τ).isNegative = t.isNegative := rfl

@[simp] theorem Term.move_stop (t : Term K) : (t.move σ τ).span.stop = τ t.span.stop := rfl

end

namespace Read

/-- The result of a reader with its value changed by a function and the tokens that it leaves
moved. -/
def moveResult {A B : Type} (σ τ : ℕ → ℕ) (f : A → B) :
    Except ReadError (A × List Token) → Except ReadError (B × List Token)
  | .error e => .error (e.move σ τ)
  | .ok (a, rest) => .ok (f a, rest.map (Token.move σ τ))

variable [Scalar K] (σ τ : ℕ → ℕ)

@[simp] theorem number_move (t : Token) :
    (number (t.move σ τ) : Except ReadError K) = number t := rfl

theorem number_error_move {t : Token} {e : ReadError}
    (h : (number t : Except ReadError K) = .error e) : e.move σ τ = e := by
  unfold number at h
  split at h
  · cases h
  · cases h
    rfl

omit [Scalar K] in
theorem named_move (start : ℕ) (c : K) (tokens : List Token) :
    named (σ start) c (tokens.map (Token.move σ τ)) =
      moveResult σ τ (Term.move σ τ) (named start c tokens) := by
  cases tokens with
  | nil => rfl
  | cons t tokens =>
    by_cases h : t.kind = .ident
    · simp [named, h, moveResult, Term.move, Span.move]
    · simp [named, h, moveResult, ReadError.move]

omit [Scalar K] in
theorem afterNumber_move (start stop : ℕ) (c : K) (tokens : List Token) :
    afterNumber (σ start) (τ stop) c (tokens.map (Token.move σ τ)) =
      moveResult σ τ (Term.move σ τ) (afterNumber start stop c tokens) := by
  have hkind : (tokens.map (Token.move σ τ)).head?.map Token.kind =
      tokens.head?.map Token.kind := by
    cases tokens <;> rfl
  unfold afterNumber
  rw [hkind, ← List.map_drop]
  split
  · exact named_move ..
  · exact named_move ..
  · rfl

theorem factor_move (start : ℕ) (negative : Bool) (tokens : List Token) :
    factor (σ start) negative (tokens.map (Token.move σ τ)) =
      moveResult σ τ (Term.move (K := K) σ τ) (factor start negative tokens) := by
  cases tokens with
  | nil => rfl
  | cons t tokens =>
    simp only [List.map_cons, factor, Token.move_kind, number_move]
    split
    · exact named_move σ τ start _ (t :: tokens)
    · cases hn : (number t : Except ReadError K) with
      | error e => exact congrArg Except.error (number_error_move σ τ hn).symm
      | ok v => exact afterNumber_move ..
    · rfl

theorem termStart?_move (first : Bool) (tokens : List Token) :
    termStart? first (tokens.map (Token.move σ τ)) =
      (termStart? first tokens).map fun s => (s.1, s.2.map (Token.move σ τ)) := by
  cases tokens with
  | nil => rfl
  | cons t tokens =>
    cases hkind : t.kind
    case number =>
      by_cases h : (first || t.isNegative) = true <;> simp [termStart?, hkind, h]
    case ident => cases first <;> simp [termStart?, hkind]
    all_goals simp [termStart?, hkind]

/-- Where a term begins, a token stands. -/
theorem nextStart_move {first : Bool} {tokens : List Token} {s : Bool × List Token}
    (h : termStart? first tokens = some s) :
    nextStart (tokens.map (Token.move σ τ)) = σ (nextStart tokens) := by
  cases tokens with
  | nil => cases h
  | cons t tokens => rfl

theorem terms_move (first : Bool) (tokens : List Token) :
    terms first (tokens.map (Token.move σ τ)) =
      moveResult σ τ (List.map (Term.move (K := K) σ τ)) (terms first tokens) := by
  fun_induction terms (K := K) first tokens with
  | case1 first tokens hs => simp [terms_eq, termStart?_move, hs, moveResult]
  | case2 first tokens negative atFactor hs e hf =>
    simp [terms_eq, termStart?_move, nextStart_move σ τ hs, factor_move, hs, hf, moveResult]
  | case3 first tokens negative atFactor hs term left hf e he ih =>
    rw [he] at ih
    simp [terms_eq first, termStart?_move, nextStart_move σ τ hs, factor_move, hs, hf, ih,
      moveResult]
  | case4 first tokens negative atFactor hs term left hf more last hmore ih =>
    rw [hmore] at ih
    simp [terms_eq first, termStart?_move, nextStart_move σ τ hs, factor_move, hs, hf, ih,
      moveResult]

omit [Scalar K] in
theorem termsStop_move (stop : ℕ) (terms : List (Term K)) :
    termsStop (τ stop) (terms.map (Term.move σ τ)) = τ (termsStop stop terms) := by
  cases h : terms.getLast? <;> simp [termsStop, h]

theorem skipColon_move (stop : ℕ) (tokens : List Token) :
    skipColon (τ stop) (tokens.map (Token.move σ τ)) =
      (τ (skipColon stop tokens).1, (skipColon stop tokens).2.map (Token.move σ τ)) := by
  cases tokens with
  | nil => rfl
  | cons t tokens => by_cases h : t.kind = .colon <;> simp [skipColon, h]

theorem senseOf_move (keyword : Token) : senseOf (keyword.move σ τ) = senseOf keyword := rfl

theorem objective_move (keyword : Token) (tokens : List Token) :
    objective (keyword.move σ τ) (tokens.map (Token.move σ τ)) =
      moveResult σ τ (Statement.move (K := K) σ τ) (objective keyword tokens) := by
  simp only [objective, Token.move_stop, skipColon_move, terms_move]
  cases terms (K := K) true (skipColon keyword.span.stop tokens).2 with
  | error e => rfl
  | ok sum =>
    simp only [moveResult, termsStop_move, Token.move_start, senseOf_move]
    rfl

theorem label?_move (tokens : List Token) :
    label? (tokens.map (Token.move σ τ)) =
      ((label? tokens).1, (label? tokens).2.map (Token.move σ τ)) := by
  match tokens with
  | [] => rfl
  | [t] => rfl
  | t :: colon :: rest =>
    by_cases h : t.kind = .ident ∧ colon.kind = .colon <;> simp [label?, h]

theorem skipSign_move (tokens : List Token) :
    skipSign (tokens.map (Token.move σ τ)) =
      ((skipSign tokens).1, (skipSign tokens).2.map (Token.move σ τ)) := by
  cases tokens with
  | nil => rfl
  | cons t tokens =>
    by_cases hplus : t.kind = .plus
    · simp [skipSign, hplus]
    · by_cases hminus : t.kind = .minus <;> simp [skipSign, hplus, hminus]

theorem signedNumber_move (tokens : List Token) :
    signedNumber (tokens.map (Token.move σ τ)) =
      moveResult σ τ (Prod.map id τ) (signedNumber (K := K) tokens) := by
  simp only [signedNumber, skipSign_move]
  cases (skipSign tokens).2 with
  | nil => rfl
  | cons t rest =>
    by_cases hkind : t.kind = .number
    · cases hn : (number t : Except ReadError K) with
      | error e => simp [hkind, hn, moveResult, number_error_move σ τ hn]
      | ok v => simp [hkind, hn, moveResult]
    · simp [hkind, moveResult, ReadError.move]

theorem constraint_move {tokens : List Token} (h : tokens ≠ []) :
    constraint (tokens.map (Token.move σ τ)) =
      moveResult σ τ (Statement.move (K := K) σ τ) (constraint tokens) := by
  have hstart : nextStart (tokens.map (Token.move σ τ)) = σ (nextStart tokens) := by
    cases tokens with
    | nil => exact absurd rfl h
    | cons t tokens => rfl
  simp only [constraint, label?_move, terms_move, hstart]
  cases terms (K := K) true (label? tokens).2 with
  | error e => rfl
  | ok sum =>
    obtain ⟨sum, rest⟩ := sum
    cases rest with
    | nil => rfl
    | cons t rest =>
      simp only [moveResult, List.map_cons, Token.move_kind, signedNumber_move]
      cases relation? t.kind with
      | none => rfl
      | some relation =>
        cases signedNumber (K := K) rest with
        | error e => rfl
        | ok rhs => rfl

theorem statement_move (t : Token) (rest : List Token) :
    statement (t.move σ τ) (rest.map (Token.move σ τ)) =
      moveResult σ τ (Statement.move (K := K) σ τ) (statement t rest) := by
  by_cases h : t.kind = .max ∨ t.kind = .min
  · simp only [statement, Token.move_kind, h, if_true, objective_move]
  · simp only [statement, Token.move_kind, h, if_false]
    exact constraint_move σ τ (List.cons_ne_nil t rest)

theorem endStatement_move (tokens : List Token) :
    endStatement (tokens.map (Token.move σ τ)) =
      ((endStatement tokens).map (List.map (Token.move σ τ))).mapError (ReadError.move σ τ) := by
  cases tokens with
  | nil => rfl
  | cons t tokens =>
    cases h : t.isSeparator <;> simp [endStatement, h, Except.map, Except.mapError, ReadError.move]

theorem statements_move (tokens : List Token) :
    statements (tokens.map (Token.move σ τ)) =
      ((statements (K := K) tokens).map (List.map (Statement.move σ τ))).mapError
        (ReadError.move σ τ) := by
  have hdrop (tokens : List Token) : (tokens.map (Token.move σ τ)).dropWhile Token.isSeparator =
      (tokens.dropWhile Token.isSeparator).map (Token.move σ τ) := by
    rw [List.dropWhile_map]
    rfl
  fun_induction statements (K := K) tokens with
  | case1 tokens hd => simp [statements_eq, hdrop, hd, Except.map, Except.mapError]
  | case2 tokens t rest hd e hs =>
    simp [statements_eq, hdrop, hd, statement_move, hs, moveResult, Except.map, Except.mapError]
  | case3 tokens t rest hd first left hs e he =>
    simp [statements_eq, hdrop, hd, statement_move, hs, moveResult, endStatement_move, he,
      Except.map, Except.mapError]
  | case4 tokens t rest hd first left hs last he e hothers ih =>
    rw [hothers] at ih
    simp [statements_eq (tokens.map _), hdrop, hd, statement_move, hs, moveResult,
      endStatement_move, he, ih, Except.map, Except.mapError]
  | case5 tokens t rest hd first left hs last he others hothers ih =>
    rw [hothers] at ih
    simp [statements_eq (tokens.map _), hdrop, hd, statement_move, hs, moveResult,
      endStatement_move, he, ih, Except.map, Except.mapError]

end Read
end LinProg
