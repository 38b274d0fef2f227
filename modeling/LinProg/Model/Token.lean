/-!
# Tokens

The smallest meaningful pieces of a model text. A token knows the bytes it stands at, counted in
the encoding UTF-8.
-/

namespace LinProg

/-- A range of bytes, without the one at `stop`. -/
structure Span where
  start : Nat
  stop : Nat
  deriving DecidableEq

/-- A span as it is shown in a message. -/
def Span.text (s : Span) : String :=
  "Span \x7b start: " ++ s.start.repr ++ ", end: " ++ s.stop.repr ++ " \x7d"

/-- The number of bytes of a text. -/
def byteLength : List Char → Nat
  | [] => 0
  | c :: text => c.utf8Size + byteLength text

@[simp] theorem byteLength_nil : byteLength [] = 0 := rfl

@[simp] theorem byteLength_cons (c : Char) (text : List Char) :
    byteLength (c :: text) = c.utf8Size + byteLength text := rfl

@[simp] theorem byteLength_append (s t : List Char) :
    byteLength (s ++ t) = byteLength s + byteLength t := by
  induction s with
  | nil => simp
  | cons c s ih => simp [ih, Nat.add_assoc]

namespace Token

inductive Kind where
  | max
  | min
  | ident
  | number
  | plus
  | minus
  | star
  | le
  | ge
  | eq
  | colon
  | semicolon
  | newline
  | comment
  | endOfInput
  | invalid
  deriving DecidableEq

/-- How messages call a kind. -/
def Kind.describe : Kind → String
  | max | min => "objective keyword"
  | ident => "variable"
  | number => "number"
  | plus => "'+'"
  | minus => "'-'"
  | star => "'*'"
  | le => "'<='"
  | ge => "'>='"
  | eq => "'='"
  | colon => "':'"
  | semicolon => "';'"
  | newline => "end of line"
  | comment => "comment"
  | endOfInput => "end of input"
  | invalid => "invalid character"

end Token

structure Token where
  kind : Token.Kind
  span : Span
  text : List Char
  deriving DecidableEq

namespace Token

/-- The token that stands for the end of a text. -/
def atEnd (offset : Nat) : Token := ⟨.endOfInput, ⟨offset, offset⟩, []⟩

/-- How messages show a token: by its text if the kind alone does not say enough. -/
def shown (t : Token) : String :=
  match t.kind with
  | .ident | .number | .invalid => "'" ++ String.ofList t.text ++ "'"
  | kind => kind.describe

/-- Whether a token ends a statement. -/
def isSeparator (t : Token) : Bool := t.kind == .newline || t.kind == .semicolon

def isNegative (t : Token) : Bool := t.text.head? == some '-'

end Token

end LinProg
