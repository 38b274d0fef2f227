import LinProg.Model.Token
import LinProg.Text.Numeric

/-!
# The tokens of a text

A text is cut into tokens from left to right, each of them as long as its kind allows. Spaces,
tabs and carriage returns between tokens are dropped, and nothing else is
(`Lexeme.ofChars_append`).
-/

namespace LinProg

/-- The first token of a text, whose first character is known: its kind, its other characters,
and what is left of the text. -/
structure Lexeme where
  kind : Token.Kind
  body : List Char
  rest : List Char

namespace Lexeme

/-- The characters up to the first closing mark of a comment, with the mark, and the others. -/
def blockBody : List Char → List Char × List Char
  | '*' :: '/' :: rest => (['*', '/'], rest)
  | c :: rest => (c :: (blockBody rest).1, (blockBody rest).2)
  | [] => ([], [])

/-- What a number goes on with: digits and, where a digit follows its point, a fraction. With it
the characters after the number. -/
def numberBody (text : List Char) : List Char × List Char :=
  let whole := text.takeWhile Char.isDigit
  match text.dropWhile Char.isDigit with
  | '.' :: d :: rest =>
      if d.isDigit then
        (whole ++ '.' :: d :: rest.takeWhile Char.isDigit, rest.dropWhile Char.isDigit)
      else (whole, '.' :: d :: rest)
  | rest => (whole, rest)

/-- The kind of a word. Keywords are known in any case of letters. -/
def wordKind (word : List Char) : Token.Kind :=
  match String.ofList (word.map Char.toLower) with
  | "max" | "maximize" | "maximise" => .max
  | "min" | "minimize" | "minimise" => .min
  | _ => .ident

/-- The kinds of the characters that are tokens by themselves. -/
def singleKind : Char → Token.Kind
  | '\n' => .newline
  | '+' => .plus
  | '*' => .star
  | ':' => .colon
  | ';' => .semicolon
  | '≤' => .le
  | '≥' => .ge
  | _ => .invalid

def ofSlash : List Char → Lexeme
  | '/' :: rest => ⟨.comment, '/' :: rest.takeWhile (· != '\n'), rest.dropWhile (· != '\n')⟩
  | '*' :: rest => ⟨.comment, '*' :: (blockBody rest).1, (blockBody rest).2⟩
  | rest => ⟨.invalid, [], rest⟩

/-- The token of one kind if an equals sign follows, and of another kind if none does. -/
def withEquals (double single : Token.Kind) : List Char → Lexeme
  | '=' :: rest => ⟨double, ['='], rest⟩
  | rest => ⟨single, [], rest⟩

/-- The token that begins with a minus sign: a number if a digit follows. -/
def ofMinus (rest : List Char) : Lexeme :=
  if rest.head?.any Char.isDigit then ⟨.number, (numberBody rest).1, (numberBody rest).2⟩
  else ⟨.minus, [], rest⟩

/-- The first token of a text that begins with the given character. -/
def ofChars (c : Char) (rest : List Char) : Lexeme :=
  if c = '/' then ofSlash rest
  else if c = '-' then ofMinus rest
  else if c = '<' then withEquals .le .invalid rest
  else if c = '>' then withEquals .ge .invalid rest
  else if c = '=' then withEquals .eq .eq rest
  else if c.isDigit then ⟨.number, (numberBody rest).1, (numberBody rest).2⟩
  else if Text.startsWord c then
    ⟨wordKind (c :: rest.takeWhile Text.inWord), rest.takeWhile Text.inWord,
      rest.dropWhile Text.inWord⟩
  else ⟨singleKind c, [], rest⟩

theorem blockBody_append (text : List Char) :
    (blockBody text).1 ++ (blockBody text).2 = text := by
  fun_induction blockBody text <;> simp_all

theorem numberBody_append (text : List Char) :
    (numberBody text).1 ++ (numberBody text).2 = text := by
  have h := List.takeWhile_append_dropWhile (p := Char.isDigit) (l := text)
  unfold numberBody
  split <;> try split
  all_goals simp_all

/-- A token and what it leaves are the text. -/
theorem ofChars_append (c : Char) (rest : List Char) :
    (ofChars c rest).body ++ (ofChars c rest).rest = rest := by
  unfold ofChars ofSlash ofMinus withEquals
  repeat' split
  all_goals simp_all [blockBody_append, numberBody_append, List.takeWhile_append_dropWhile]

theorem length_rest_le (c : Char) (rest : List Char) :
    (ofChars c rest).rest.length ≤ rest.length := by
  have h := congrArg List.length (ofChars_append c rest)
  rw [List.length_append] at h
  omega

end Lexeme

namespace Token

/-- Whether a character may stand between tokens. -/
def isGap (c : Char) : Bool := c == ' ' || c == '\t' || c == '\r'

/-- The tokens of a text that begins at an offset. -/
def scan (offset : Nat) : List Char → List Token
  | [] => []
  | c :: rest =>
      if isGap c then scan (offset + c.utf8Size) rest
      else
        let lexeme := Lexeme.ofChars c rest
        let text := c :: lexeme.body
        let stop := offset + byteLength text
        ⟨lexeme.kind, ⟨offset, stop⟩, text⟩ :: scan stop lexeme.rest
termination_by text => text.length
decreasing_by
  · simp
  · have := Lexeme.length_rest_le c rest
    simp only [List.length_cons]
    omega

/-- The tokens of a text with the one for its end. -/
def tokenize (text : List Char) : List Token := scan 0 text ++ [atEnd (byteLength text)]

/-- The first `count` tokens that a reader of the text is given. The end comes again and
again. -/
def firstTokens (count : Nat) (text : List Char) : List Token :=
  let tokens := tokenize text
  tokens.take count ++ List.replicate (count - tokens.length) (atEnd (byteLength text))

/-- The tokens of a text that matter for its meaning. -/
def significant (text : List Char) : List Token :=
  (scan 0 text).filter fun t => t.kind != .comment

end Token

end LinProg
