import LinProg.Decimal.Literal
import LinProg.Model.Scan
import LinProg.Model.Statement

/-!
# Reading models

The statements of a model are read off its tokens from left to right. Every reader returns what
it has read with the tokens that are left, and these are fewer. The first token that cannot go on
what is read so far is the fault; the end of the text is one of its own.
-/

namespace LinProg

/-- What a reader would accept. -/
inductive Expected where
  | endOfStatement
  | relation
  | term
  | name
  | number
  deriving DecidableEq

def Expected.describe : Expected → String
  | endOfStatement => "end of statement"
  | relation => "'<=', '>=' or '='"
  | term => "number or variable"
  | name => Token.Kind.ident.describe
  | number => Token.Kind.number.describe

/-- Why a text is not a model. -/
inductive ReadError where
  | unexpectedToken (expected : Expected) (found : Token)
  | unexpectedEnd
  /-- The text of a number cannot be read. -/
  | invalidNumber (text : List Char)
  deriving DecidableEq

namespace ReadError

def message : ReadError → String
  | unexpectedToken expected found =>
      "Unexpected token: expected " ++ expected.describe ++ ", found " ++ found.shown ++
        " at position " ++ found.span.text
  | unexpectedEnd => "Unexpected end of file"
  | invalidNumber text => "Invalid number: " ++ String.ofList text

/-- Where a fault lies, if it lies at a token. -/
def span? : ReadError → Option Span
  | unexpectedToken _ found => some found.span
  | _ => none

/-- The fault of the next token. -/
def atNext (expected : Expected) : List Token → ReadError
  | [] => .unexpectedEnd
  | t :: _ => .unexpectedToken expected t

end ReadError

namespace Read

variable {K : Type} [Scalar K]

def signed (negative : Bool) (x : K) : K := if negative then -x else x

def number (t : Token) : Except ReadError K :=
  match Literal.value? t.text with
  | some value => .ok value
  | none => .error (.invalidNumber t.text)

/-- The variable that a coefficient belongs to. -/
def named (start : Nat) (coefficient : K) : List Token →
    Except ReadError (Term K × List Token)
  | t :: rest =>
      if t.kind = .ident then
        .ok (⟨⟨start, t.span.stop⟩, coefficient, some (String.ofList t.text)⟩, rest)
      else .error (.unexpectedToken .name t)
  | [] => .error .unexpectedEnd

/-- What may follow the coefficient of a term: a variable, with or without a star before it, or
nothing, which makes the term a constant that stops with its number. -/
def afterNumber (start stop : Nat) (coefficient : K) (tokens : List Token) :
    Except ReadError (Term K × List Token) :=
  match tokens.head?.map Token.kind with
  | some .star => named start coefficient (tokens.drop 1)
  | some .ident => named start coefficient tokens
  | _ => .ok (⟨⟨start, stop⟩, coefficient, none⟩, tokens)

/-- A term without the sign before it. -/
def factor (start : Nat) (negative : Bool) : List Token →
    Except ReadError (Term K × List Token)
  | [] => .error .unexpectedEnd
  | t :: rest =>
      match t.kind with
      -- a variable alone has the coefficient one
      | .ident => named start (signed negative 1) (t :: rest)
      | .number =>
          match number t with
          | .error e => .error e
          | .ok value => afterNumber start t.span.stop (signed negative value) rest
      | _ => .error (.unexpectedToken .term t)

/-- Where a term begins: whether a minus sign stands before it, and the tokens from its factor
on. A term that is not the first needs a sign, which may be part of its number. -/
def termStart? (first : Bool) : List Token → Option (Bool × List Token)
  | [] => none
  | t :: rest =>
      match t.kind with
      | .plus => some (false, rest)
      | .minus => some (true, rest)
      | .ident => if first then some (false, t :: rest) else none
      | .number => if first || t.isNegative then some (false, t :: rest) else none
      | _ => none

/-- The first byte of the next token. -/
def nextStart (tokens : List Token) : Nat := (tokens.head?.map (·.span.start)).getD 0

omit [Scalar K] in
theorem named_length {start : Nat} {coefficient : K} {tokens rest : List Token}
    {term : Term K} (h : named start coefficient tokens = .ok (term, rest)) :
    rest.length < tokens.length := by
  cases tokens with
  | nil => simp [named] at h
  | cons t tokens =>
    simp only [named] at h
    split at h
    · cases h
      simp
    · simp at h

omit [Scalar K] in
theorem afterNumber_length {start stop : Nat} {coefficient : K} {tokens rest : List Token}
    {term : Term K} (h : afterNumber start stop coefficient tokens = .ok (term, rest)) :
    rest.length ≤ tokens.length := by
  unfold afterNumber at h
  split at h
  · have := named_length h
    simp only [List.length_drop] at this
    omega
  · exact Nat.le_of_lt (named_length h)
  · cases h
    exact Nat.le_refl _

theorem factor_length {start : Nat} {negative : Bool} {tokens rest : List Token}
    {term : Term K} (h : factor start negative tokens = .ok (term, rest)) :
    rest.length < tokens.length := by
  cases tokens with
  | nil => simp [factor] at h
  | cons t tokens =>
    simp only [factor] at h
    split at h
    · exact named_length h
    · split at h
      · simp at h
      · exact Nat.lt_succ_of_le (afterNumber_length h)
    · simp at h

theorem termStart?_length {first negative : Bool} {tokens rest : List Token}
    (h : termStart? first tokens = some (negative, rest)) : rest.length ≤ tokens.length := by
  cases tokens with
  | nil => simp [termStart?] at h
  | cons t tokens =>
    simp only [termStart?] at h
    split at h <;> try split at h
    all_goals cases h
    all_goals simp

/-- A sum of terms, possibly empty. -/
def terms (first : Bool) (tokens : List Token) :
    Except ReadError (List (Term K) × List Token) :=
  match _hs : termStart? first tokens with
  | none => .ok ([], tokens)
  | some (negative, atFactor) =>
      match _hf : factor (nextStart tokens) negative atFactor with
      | .error e => .error e
      | .ok (term, rest) =>
          match terms false rest with
          | .error e => .error e
          | .ok (more, rest) => .ok (term :: more, rest)
termination_by tokens.length
decreasing_by exact Nat.lt_of_lt_of_le (factor_length _hf) (termStart?_length _hs)

/-- The byte after the last term, or the given one if there is no term. -/
def termsStop (stop : Nat) (terms : List (Term K)) : Nat :=
  (terms.getLast?.map (·.span.stop)).getD stop

/-- The tokens after a colon, if the tokens begin with one, and the byte before which they
stand. -/
def skipColon (stop : Nat) : List Token → Nat × List Token
  | t :: rest => if t.kind = .colon then (t.span.stop, rest) else (stop, t :: rest)
  | [] => (stop, [])

def senseOf (keyword : Token) : Sense := if keyword.kind = .min then .min else .max

/-- The statement of an objective, after its keyword. -/
def objective (keyword : Token) (tokens : List Token) :
    Except ReadError (Statement K × List Token) :=
  let (stop, afterColon) := skipColon keyword.span.stop tokens
  match terms true afterColon with
  | .error e => .error e
  | .ok (sum, rest) =>
      let span := ⟨keyword.span.start, termsStop stop sum⟩
      .ok (.objective ⟨span, senseOf keyword, sum⟩, rest)

/-- The name before a colon, if the tokens begin with one. -/
def label? : List Token → Option String × List Token
  | t :: colon :: rest =>
      if t.kind = .ident ∧ colon.kind = .colon then (some (String.ofList t.text), rest)
      else (none, t :: colon :: rest)
  | tokens => (none, tokens)

def relation? : Token.Kind → Option Relation
  | .le => some .le
  | .ge => some .ge
  | .eq => some .eq
  | _ => none

/-- Whether the tokens begin with a minus sign, and the tokens after a sign. -/
def skipSign : List Token → Bool × List Token
  | t :: rest =>
      if t.kind = .plus then (false, rest)
      else if t.kind = .minus then (true, rest)
      else (false, t :: rest)
  | [] => (false, [])

/-- A number with or without a sign before it, and the byte after it. -/
def signedNumber (tokens : List Token) : Except ReadError ((K × Nat) × List Token) :=
  let (negative, atNumber) := skipSign tokens
  match atNumber with
  | [] => .error .unexpectedEnd
  | t :: rest =>
      if t.kind = .number then
        match number t with
        | .error e => .error e
        | .ok value => .ok ((signed negative value, t.span.stop), rest)
      else .error (.unexpectedToken .number t)

def constraint (tokens : List Token) : Except ReadError (Statement K × List Token) :=
  let (name, afterLabel) := label? tokens
  match terms true afterLabel with
  | .error e => .error e
  | .ok (sum, rest) =>
      match rest with
      | [] => .error .unexpectedEnd
      | t :: rest =>
          match relation? t.kind with
          | none => .error (.unexpectedToken .relation t)
          | some relation =>
              match signedNumber rest with
              | .error e => .error e
              | .ok ((rhs, stop), rest) =>
                  .ok (.constraint ⟨⟨nextStart tokens, stop⟩, name, sum, relation, rhs⟩, rest)

/-- A statement that begins with the given token. -/
def statement (t : Token) (rest : List Token) : Except ReadError (Statement K × List Token) :=
  if t.kind = .max ∨ t.kind = .min then objective t rest else constraint (t :: rest)

/-- What is left after the end of a statement: a separator, or nothing at all. -/
def endStatement : List Token → Except ReadError (List Token)
  | [] => .ok []
  | t :: rest =>
      if t.isSeparator then .ok rest else .error (.unexpectedToken .endOfStatement t)

/-- A sum is a term, if one begins, and the sum that is left. -/
theorem terms_eq (first : Bool) (tokens : List Token) :
    terms (K := K) first tokens =
      match termStart? first tokens with
      | none => .ok ([], tokens)
      | some (negative, atFactor) =>
          match factor (nextStart tokens) negative atFactor with
          | .error e => .error e
          | .ok (term, rest) =>
              match terms false rest with
              | .error e => .error e
              | .ok (more, rest) => .ok (term :: more, rest) := by
  rw [terms]
  split <;> (try split) <;> (try split) <;> simp_all

theorem terms_length {first : Bool} {tokens rest : List Token} {sum : List (Term K)}
    (h : terms first tokens = .ok (sum, rest)) : rest.length ≤ tokens.length := by
  fun_induction terms (K := K) first tokens generalizing sum rest with
  | case1 => cases h; exact Nat.le_refl _
  | case2 => cases h
  | case3 => cases h
  | case4 first tokens negative atFactor hs term left hf more last hmore ih =>
    cases h
    have hfactor := factor_length hf
    have hstart := termStart?_length hs
    have hlast := ih hmore
    omega

theorem skipColon_length (stop : Nat) (tokens : List Token) :
    (skipColon stop tokens).2.length ≤ tokens.length := by
  unfold skipColon
  split <;> try split
  all_goals simp

theorem label?_length (tokens : List Token) : (label? tokens).2.length ≤ tokens.length := by
  unfold label?
  split <;> try split
  all_goals simp
  all_goals omega

theorem skipSign_length (tokens : List Token) : (skipSign tokens).2.length ≤ tokens.length := by
  unfold skipSign
  split <;> (try split) <;> (try split)
  all_goals simp

theorem objective_length {keyword : Token} {tokens rest : List Token} {s : Statement K}
    (h : objective keyword tokens = .ok (s, rest)) : rest.length ≤ tokens.length := by
  have hcolon := skipColon_length keyword.span.stop tokens
  simp only [objective] at h
  split at h
  · cases h
  · rename_i heq
    cases h
    exact Nat.le_trans (terms_length heq) hcolon

theorem signedNumber_length {tokens rest : List Token} {value : K × Nat}
    (h : signedNumber tokens = .ok (value, rest)) : rest.length < tokens.length := by
  have hsign := skipSign_length tokens
  simp only [signedNumber] at h
  split at h
  · cases h
  · rename_i heq
    rw [heq, List.length_cons] at hsign
    split at h
    · split at h <;> cases h
      omega
    · cases h

theorem constraint_length {tokens rest : List Token} {s : Statement K}
    (h : constraint tokens = .ok (s, rest)) : rest.length < tokens.length := by
  have hlabel := label?_length tokens
  simp only [constraint] at h
  split at h
  · cases h
  · rename_i hterms
    have hsum := terms_length hterms
    split at h
    · cases h
    · split at h
      · cases h
      · split at h
        · cases h
        · rename_i hnumber
          cases h
          have := signedNumber_length hnumber
          simp only [List.length_cons] at hsum
          omega

theorem statement_length {t : Token} {tokens rest : List Token} {s : Statement K}
    (h : statement t tokens = .ok (s, rest)) : rest.length ≤ tokens.length := by
  unfold statement at h
  split at h
  · exact objective_length h
  · exact Nat.le_of_lt_succ (constraint_length h)

theorem endStatement_length {tokens rest : List Token} (h : endStatement tokens = .ok rest) :
    rest.length ≤ tokens.length := by
  cases tokens with
  | nil => cases h; exact Nat.le_refl _
  | cons t tokens =>
    simp only [endStatement] at h
    split at h <;> cases h
    simp

theorem length_dropWhile_le {α : Type} (test : α → Bool) (xs : List α) :
    (xs.dropWhile test).length ≤ xs.length := by
  have h := congrArg List.length (List.takeWhile_append_dropWhile (p := test) (l := xs))
  rw [List.length_append] at h
  omega

/-- The statements of a list of tokens, between which separators stand. -/
def statements (tokens : List Token) : Except ReadError (List (Statement K)) :=
  match _hd : tokens.dropWhile Token.isSeparator with
  | [] => .ok []
  | t :: rest =>
      match _hs : statement t rest with
      | .error e => .error e
      | .ok (first, rest) =>
          match _he : endStatement rest with
          | .error e => .error e
          | .ok rest =>
              match statements rest with
              | .error e => .error e
              | .ok others => .ok (first :: others)
termination_by tokens.length
decreasing_by
  have hdrop := length_dropWhile_le Token.isSeparator tokens
  have hstatement := statement_length _hs
  have hend := endStatement_length _he
  rw [_hd, List.length_cons] at hdrop
  omega

/-- A list of statements is one, if a token is left after the separators, and those after it. -/
theorem statements_eq (tokens : List Token) :
    statements (K := K) tokens =
      match tokens.dropWhile Token.isSeparator with
      | [] => .ok []
      | t :: rest =>
          match statement t rest with
          | .error e => .error e
          | .ok (first, rest) =>
              match endStatement rest with
              | .error e => .error e
              | .ok rest =>
                  match statements rest with
                  | .error e => .error e
                  | .ok others => .ok (first :: others) := by
  rw [statements]
  split <;> (try split) <;> (try split) <;> (try split) <;> simp_all

end Read

def Model.ofText? {K : Type} [Scalar K] (text : List Char) : Except ReadError (Model K) :=
  (Read.statements (Token.significant text)).map Model.mk

end LinProg
