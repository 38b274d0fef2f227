import LinProg.Proofs.Model.Spans

/-!
# Scanning with a cursor

A cursor looks at one character of a text, has the next one in sight, and counts the bytes that it
has passed, a character at a time. The text of a token is cut out of the source between two counts
of bytes, which fails inside a character and behind the end. A cursor never fails that way: it gets
the tokens of the text, which it needs no more rounds for than the text has characters and one
(`tokenize?_eq`).
-/
namespace LinProg

/-- What is left of a text without its first bytes, unless the last of them is inside a
character. -/
def dropBytes? : ℕ → List Char → Option (List Char)
  | 0, text => some text
  | _ + 1, [] => none
  | count + 1, c :: text =>
      if c.utf8Size ≤ count + 1 then dropBytes? (count + 1 - c.utf8Size) text else none

/-- The first bytes of a text, unless the last of them is inside a character. -/
def takeBytes? : ℕ → List Char → Option (List Char)
  | 0, _ => some []
  | _ + 1, [] => none
  | count + 1, c :: text =>
      if c.utf8Size ≤ count + 1 then (takeBytes? (count + 1 - c.utf8Size) text).map (c :: ·)
      else none

/-- The characters of a span, unless it ends inside a character or behind the text. -/
def slice? (text : List Char) (s : Span) : Option (List Char) :=
  if s.start ≤ s.stop then (dropBytes? s.start text).bind (takeBytes? (s.stop - s.start)) else none

theorem dropBytes?_cons (c : Char) (count : ℕ) (text : List Char) :
    dropBytes? (c.utf8Size + count) (c :: text) = dropBytes? count text := by
  have hc := c.utf8Size_pos
  obtain ⟨k, hk⟩ := Nat.exists_eq_succ_of_ne_zero (n := c.utf8Size + count) (by omega)
  have hcount : k + 1 - c.utf8Size = count := by omega
  rw [hk, dropBytes?, if_pos (by omega), hcount]

theorem takeBytes?_cons (c : Char) (count : ℕ) (text : List Char) :
    takeBytes? (c.utf8Size + count) (c :: text) = (takeBytes? count text).map (c :: ·) := by
  have hc := c.utf8Size_pos
  obtain ⟨k, hk⟩ := Nat.exists_eq_succ_of_ne_zero (n := c.utf8Size + count) (by omega)
  have hcount : k + 1 - c.utf8Size = count := by omega
  rw [hk, takeBytes?, if_pos (by omega), hcount]

theorem dropBytes?_append (left right : List Char) :
    dropBytes? (byteLength left) (left ++ right) = some right := by
  induction left with
  | nil => cases right <;> rfl
  | cons c left ih => rw [List.cons_append, byteLength_cons, dropBytes?_cons, ih]

theorem takeBytes?_append (left right : List Char) :
    takeBytes? (byteLength left) (left ++ right) = some left := by
  induction left with
  | nil => cases right <;> rfl
  | cons c left ih =>
    rw [List.cons_append, byteLength_cons, takeBytes?_cons, ih, Option.map_some]

theorem slice?_append (left middle right : List Char) :
    slice? (left ++ (middle ++ right)) ⟨byteLength left, byteLength left + byteLength middle⟩ =
      some middle := by
  rw [slice?, if_pos (Nat.le_add_right ..), dropBytes?_append, Option.bind_some,
    Nat.add_sub_cancel_left, takeBytes?_append]

/-- No token of a text stands for its end. -/
theorem Lexeme.ofChars_kind_ne (c : Char) (rest : List Char) :
    (ofChars c rest).kind ≠ .endOfInput := by
  rcases ofChars_cases c rest with hmark | ⟨hnumber, _⟩
  · exact hmark.2
  · simp [hnumber]

/-- These marks are tokens by themselves, since no word begins with them. -/
theorem Lexeme.ofChars_mark {c : Char} (hc : c ∈ ['\n', '≤', '≥']) (rest : List Char) :
    ofChars c rest = ⟨singleKind c, [], rest⟩ := by
  have hwords : ['\n', '≤', '≥'].all (!Text.startsWord ·) = true := by decide +kernel
  have hword : Text.startsWord c = false := by simpa using List.all_eq_true.mp hwords c hc
  simp only [List.mem_cons, List.not_mem_nil, or_false] at hc
  rcases hc with rfl | rfl | rfl <;> simp [ofChars, hword]

/-- A token that stands in a text is the slice of its span. -/
theorem Token.StandsIn.slice? {t : Token} {text : List Char} (h : t.StandsIn 0 text) :
    LinProg.slice? text t.span = some t.text := by
  obtain ⟨left, right, rfl, hspan⟩ := h
  rw [hspan, Nat.zero_add, slice?_append]

/-- The source, the character that is looked at, those behind it, and the bytes before it. -/
structure Cursor where
  source : List Char
  current : Option Char
  chars : List Char
  pos : ℕ

namespace Cursor

def start (source : List Char) : Cursor := ⟨source, source.head?, source.tail, 0⟩

def advance (s : Cursor) : Cursor :=
  { s with
    current := s.chars.head?
    chars := s.chars.tail
    pos := s.pos + (s.current.map Char.utf8Size).getD 0 }

def peekNext (s : Cursor) : Option Char := s.chars.head?

/-- The number of characters that are not passed. -/
def left (s : Cursor) : ℕ := s.current.toList.length + s.chars.length

theorem left_advance {s : Cursor} {c : Char} (h : s.current = some c) :
    s.advance.left < s.left := by
  cases hchars : s.chars <;> simp [left, advance, h, hchars]

/-- Passes the characters of a kind. -/
def skipWhile (test : Char → Bool) (s : Cursor) : Cursor :=
  match _h : s.current with
  | some c => if test c then skipWhile test s.advance else s
  | none => s
termination_by s.left
decreasing_by exact left_advance ‹_›

/-- Passes the characters up to the first closing mark of a comment, and the mark. -/
def skipBlock (s : Cursor) : Cursor :=
  match _h : s.current with
  | some c =>
      if c = '*' ∧ s.advance.current = some '/' then s.advance.advance else skipBlock s.advance
  | none => s
termination_by s.left
decreasing_by exact left_advance ‹_›

/-- The token that begins at a byte and ends at the cursor. -/
def tokenFrom? (kind : Token.Kind) (start : ℕ) (s : Cursor) : Option (Token × Cursor) :=
  (slice? s.source ⟨start, s.pos⟩).map fun text => (⟨kind, ⟨start, s.pos⟩, text⟩, s)

def lineComment? (s : Cursor) : Option (Token × Cursor) :=
  (s.advance.advance.skipWhile (· != '\n')).tokenFrom? .comment s.pos

def blockComment? (s : Cursor) : Option (Token × Cursor) :=
  s.advance.advance.skipBlock.tokenFrom? .comment s.pos

def skipSign (s : Cursor) : Cursor := if s.current = some '-' then s.advance else s

/-- Passes a point and the digits behind it, if there are any. -/
def skipFraction (s : Cursor) : Cursor :=
  if s.current = some '.' ∧ s.peekNext.any Char.isDigit then s.advance.skipWhile Char.isDigit else s

def number? (s : Cursor) : Option (Token × Cursor) :=
  (s.skipSign.skipWhile Char.isDigit).skipFraction.tokenFrom? .number s.pos

def word? (s : Cursor) : Option (Token × Cursor) :=
  let behind := s.skipWhile Text.inWord
  (slice? behind.source ⟨s.pos, behind.pos⟩).map fun text =>
    (⟨Lexeme.wordKind text, ⟨s.pos, behind.pos⟩, text⟩, behind)

/-- An operator of two characters, or of another kind if the second one does not follow. -/
def operator? (double single : Token.Kind) (second : Char) (s : Cursor) : Option (Token × Cursor) :=
  if s.advance.current = some second then s.advance.advance.tokenFrom? double s.pos
  else s.advance.tokenFrom? single s.pos

def single? (kind : Token.Kind) (s : Cursor) : Option (Token × Cursor) :=
  s.advance.tokenFrom? kind s.pos

/-- The token that begins with the character. -/
def tokenAt? (s : Cursor) : Char → Option (Token × Cursor)
  | '\n' => some (⟨.newline, ⟨s.pos, s.advance.pos⟩, ['\n']⟩, s.advance)
  | '/' =>
      match s.peekNext with
      | some '/' => s.lineComment?
      | some '*' => s.blockComment?
      | _ => s.single? .invalid
  | '+' => s.single? .plus
  | '-' => if s.peekNext.any Char.isDigit then s.number? else s.single? .minus
  | '*' => s.single? .star
  | ':' => s.single? .colon
  | ';' => s.single? .semicolon
  | '≤' => s.single? .le
  | '≥' => s.single? .ge
  | '<' => s.operator? .le .invalid '='
  | '>' => s.operator? .ge .invalid '='
  | '=' => s.operator? .eq .eq '='
  | c =>
      if c.isDigit then s.number?
      else if Text.startsWord c then s.word?
      else s.single? .invalid

/-- The next token, with the cursor behind it. -/
def next? (s : Cursor) : Option (Token × Cursor) :=
  let s := s.skipWhile Token.isGap
  match s.current with
  | none => some (Token.atEnd s.pos, s)
  | some c => s.tokenAt? c

/-- The tokens up to the one for the end, if they are not more than the rounds. -/
def tokens? : ℕ → Cursor → Option (List Token)
  | 0, _ => none
  | rounds + 1, s =>
      s.next?.bind fun (t, s) =>
        if t.kind = .endOfInput then some [t] else (tokens? rounds s).map (t :: ·)

def tokenize? (source : List Char) : Option (List Token) :=
  tokens? (source.length + 1) (start source)

/-- The cursor that has passed the first part of a text. -/
def between (left right : List Char) : Cursor :=
  ⟨left ++ right, right.head?, right.tail, byteLength left⟩

@[simp] theorem current_between (left right : List Char) :
    (between left right).current = right.head? := rfl

@[simp] theorem peekNext_between (left right : List Char) :
    (between left right).peekNext = right.tail.head? := rfl

@[simp] theorem pos_between (left right : List Char) :
    (between left right).pos = byteLength left := rfl

@[simp] theorem source_between (left right : List Char) :
    (between left right).source = left ++ right := rfl

theorem advance_between (left : List Char) (c : Char) (right : List Char) :
    (between left (c :: right)).advance = between (left ++ [c]) right := by
  simp [between, advance]

theorem skipWhile_between (test : Char → Bool) (left right : List Char) :
    (between left right).skipWhile test =
      between (left ++ right.takeWhile test) (right.dropWhile test) := by
  induction right generalizing left with
  | nil =>
    rw [skipWhile]
    simp [between]
  | cons c right ih =>
    rw [skipWhile]
    cases hc : test c
    · simp [between, hc]
    · have hskip := ih (left ++ [c])
      rw [← advance_between] at hskip
      simpa [between, hc] using hskip

/-- The cursor looks at the first character that it has not passed. -/
theorem skipBlock_cons (left : List Char) (c : Char) (right : List Char) :
    (between left (c :: right)).skipBlock =
      if c = '*' ∧ right.head? = some '/' then (between (left ++ [c]) right).advance
      else (between (left ++ [c]) right).skipBlock := by
  rw [skipBlock]
  simp only [advance_between]
  rfl

theorem skipBlock_between (left right : List Char) :
    (between left right).skipBlock =
      between (left ++ (Lexeme.blockBody right).1) (Lexeme.blockBody right).2 := by
  fun_induction Lexeme.blockBody right generalizing left with
  | case1 rest => simp [skipBlock_cons, advance_between]
  | case2 c rest hmark ih =>
    have hopen : ¬ (c = '*' ∧ rest.head? = some '/') := by
      rintro ⟨hc, hhead⟩
      obtain ⟨more, hrest⟩ := List.head?_eq_some_iff.mp hhead
      exact hmark more hc hrest
    rw [skipBlock_cons, if_neg hopen, ih, List.append_assoc]
    rfl
  | case3 =>
    rw [skipBlock]
    simp [between]

/-- The token that a lexeme behind the first part of a text is, and the cursor behind it. -/
def result (left : List Char) (c : Char) (lexeme : Lexeme) : Token × Cursor :=
  (⟨lexeme.kind, ⟨byteLength left, byteLength left + byteLength (c :: lexeme.body)⟩,
      c :: lexeme.body⟩,
    between (left ++ c :: lexeme.body) lexeme.rest)

variable (left : List Char) (c : Char) (rest : List Char)

theorem slice?_between (body right : List Char) :
    slice? (between (left ++ c :: body) right).source
        ⟨byteLength left, (between (left ++ c :: body) right).pos⟩ = some (c :: body) := by
  have hslice := slice?_append left (c :: body) right
  rw [← List.append_assoc] at hslice
  simpa using hslice

theorem tokenFrom?_between (lexeme : Lexeme) :
    (between (left ++ c :: lexeme.body) lexeme.rest).tokenFrom? lexeme.kind (byteLength left) =
      some (result left c lexeme) := by
  rw [tokenFrom?, slice?_between]
  simp [result]

theorem single?_between (kind : Token.Kind) :
    (between left (c :: rest)).single? kind = some (result left c ⟨kind, [], rest⟩) := by
  rw [single?, advance_between]
  exact tokenFrom?_between left c ⟨kind, [], rest⟩

theorem operator?_between (double single : Token.Kind) :
    (between left (c :: rest)).operator? double single '=' =
      some (result left c (Lexeme.withEquals double single rest)) := by
  rw [operator?, advance_between, current_between]
  fun_cases Lexeme.withEquals double single rest with
  | case1 rest =>
    rw [List.head?_cons, if_pos rfl, advance_between, List.append_assoc]
    exact tokenFrom?_between left c ⟨double, ['='], rest⟩
  | case2 rest hnot =>
    have hhead : rest.head? ≠ some '=' := fun h => by
      obtain ⟨more, hrest⟩ := List.head?_eq_some_iff.mp h
      exact hnot more hrest
    rw [if_neg hhead]
    exact tokenFrom?_between left c ⟨single, [], rest⟩

theorem lineComment?_between :
    (between left (c :: '/' :: rest)).lineComment? =
      some (result left c (Lexeme.ofSlash ('/' :: rest))) := by
  rw [lineComment?, advance_between, advance_between, skipWhile_between, List.append_assoc,
    List.append_assoc]
  exact tokenFrom?_between left c (Lexeme.ofSlash ('/' :: rest))

theorem blockComment?_between :
    (between left (c :: '*' :: rest)).blockComment? =
      some (result left c (Lexeme.ofSlash ('*' :: rest))) := by
  rw [blockComment?, advance_between, advance_between, skipBlock_between, List.append_assoc,
    List.append_assoc]
  exact tokenFrom?_between left c (Lexeme.ofSlash ('*' :: rest))

theorem skipFraction_between (right : List Char) :
    (between left right).skipFraction =
      between (left ++ (Lexeme.fraction right).1) (Lexeme.fraction right).2 := by
  by_cases h : Lexeme.BeginsFraction right
  · obtain ⟨d, rest, rfl, hd⟩ := h
    rw [skipFraction, if_pos ⟨rfl, hd⟩, advance_between, skipWhile_between,
      Lexeme.fraction_cons_cons hd, List.takeWhile_cons_of_pos hd, List.dropWhile_cons_of_pos hd,
      List.append_assoc]
    rfl
  · have hnot : ¬ (right.head? = some '.' ∧ right.tail.head?.any Char.isDigit = true) := by
      rintro ⟨hpoint, hdigit⟩
      obtain ⟨more, rfl⟩ := List.head?_eq_some_iff.mp hpoint
      cases more with
      | nil => simp at hdigit
      | cons d rest => exact h ⟨d, rest, rfl, by simpa using hdigit⟩
    rw [skipFraction, current_between, peekNext_between, if_neg hnot, Lexeme.fraction_of_not h,
      List.append_nil]

theorem skipNumber_between (right : List Char) :
    ((between left right).skipWhile Char.isDigit).skipFraction =
      between (left ++ (Lexeme.numberBody right).1) (Lexeme.numberBody right).2 := by
  rw [skipWhile_between, skipFraction_between, Lexeme.numberBody_eq, List.append_assoc]

/-- A number is its first character, a sign or a digit, and what numbers go on with. -/
theorem number?_between (h : c = '-' ∨ c.isDigit = true) :
    (between left (c :: rest)).number? =
      some (result left c ⟨.number, (Lexeme.numberBody rest).1, (Lexeme.numberBody rest).2⟩) := by
  have hskip : ((between left (c :: rest)).skipSign.skipWhile Char.isDigit).skipFraction =
      between (left ++ c :: (Lexeme.numberBody rest).1) (Lexeme.numberBody rest).2 := by
    rw [skipSign, current_between, List.head?_cons]
    by_cases hc : c = '-'
    · rw [if_pos (congrArg some hc), advance_between, skipNumber_between, List.append_assoc]
      rfl
    · have hd := h.resolve_left hc
      have hbody : Lexeme.numberBody (c :: rest) =
          (c :: (Lexeme.numberBody rest).1, (Lexeme.numberBody rest).2) := by
        rw [Lexeme.numberBody_eq, Lexeme.numberBody_eq, List.takeWhile_cons_of_pos hd,
          List.dropWhile_cons_of_pos hd, List.cons_append]
      rw [if_neg (by simpa using hc), skipNumber_between, hbody]
  rw [number?, hskip]
  exact tokenFrom?_between left c ⟨.number, _, _⟩

theorem word?_between (h : Text.inWord c = true) :
    (between left (c :: rest)).word? =
      some (result left c ⟨Lexeme.wordKind (c :: rest.takeWhile Text.inWord),
        rest.takeWhile Text.inWord, rest.dropWhile Text.inWord⟩) := by
  have hskip : (between left (c :: rest)).skipWhile Text.inWord =
      between (left ++ c :: rest.takeWhile Text.inWord) (rest.dropWhile Text.inWord) := by
    rw [skipWhile_between, List.takeWhile_cons_of_pos h, List.dropWhile_cons_of_pos h]
  rw [word?, hskip]
  simp only [pos_between left, slice?_between, Option.map_some]
  simp [result]

/-- The cursor gets the first token of what it has not passed. -/
theorem tokenAt?_between :
    (between left (c :: rest)).tokenAt? c = some (result left c (Lexeme.ofChars c rest)) := by
  have hsingle {kind : Token.Kind} (h : Lexeme.ofChars c rest = ⟨kind, [], rest⟩) :
      (between left (c :: rest)).single? kind = some (result left c (Lexeme.ofChars c rest)) := by
    rw [h, single?_between]
  fun_cases tokenAt? (between left (c :: rest)) c
  case case1 =>
    rw [Lexeme.ofChars_mark (by simp)]
    simp [advance_between, result, Lexeme.singleKind]
  case case2 h =>
    obtain ⟨rest, rfl⟩ := List.head?_eq_some_iff.mp h
    exact lineComment?_between left '/' rest
  case case3 h =>
    obtain ⟨rest, rfl⟩ := List.head?_eq_some_iff.mp h
    exact blockComment?_between left '/' rest
  case case4 hline hblock =>
    have hslash : Lexeme.ofSlash rest = ⟨.invalid, [], rest⟩ :=
      Lexeme.ofSlash.eq_3 rest (fun _ h => hline (by simp [h])) fun _ h => hblock (by simp [h])
    exact hsingle hslash
  case case6 h =>
    rw [number?_between left '-' rest (.inl rfl)]
    simp_all [Lexeme.ofChars, Lexeme.ofMinus]
  case case7 h => exact hsingle (if_neg h)
  case case11 => exact hsingle (Lexeme.ofChars_mark (by simp) rest)
  case case12 => exact hsingle (Lexeme.ofChars_mark (by simp) rest)
  case case13 => exact operator?_between left '<' rest .le .invalid
  case case14 => exact operator?_between left '>' rest .ge .invalid
  case case15 => exact operator?_between left '=' rest .eq .eq
  case case16 hd =>
    rw [number?_between left c rest (.inr hd)]
    simp_all [Lexeme.ofChars]
  case case17 hd hstart =>
    rw [word?_between left c rest (Text.inWord_of_startsWord hstart)]
    simp_all [Lexeme.ofChars]
  case case18 => exact hsingle (by simp_all [Lexeme.ofChars, Lexeme.singleKind])
  all_goals exact hsingle rfl

theorem next?_between (right : List Char) : (between left right).next? =
    match right.dropWhile Token.isGap with
    | [] => some (Token.atEnd (byteLength (left ++ right)), between (left ++ right) [])
    | c :: rest =>
        some (result (left ++ right.takeWhile Token.isGap) c (Lexeme.ofChars c rest)) := by
  have happend := List.takeWhile_append_dropWhile (p := Token.isGap) (l := right)
  rw [next?, skipWhile_between]
  cases hright : right.dropWhile Token.isGap with
  | nil =>
    rw [hright, List.append_nil] at happend
    rw [happend]
    rfl
  | cons c rest => exact tokenAt?_between (left ++ right.takeWhile Token.isGap) c rest

/-- Behind any part of a text, the cursor gets the tokens of what follows. -/
theorem tokens?_between {rounds : ℕ} {left right : List Char} (h : right.length < rounds) :
    (between left right).tokens? rounds = some (Token.scan (byteLength left) right ++
      [Token.atEnd (byteLength (left ++ right))]) := by
  induction rounds generalizing left right with
  | zero => omega
  | succ rounds ih =>
    have happend := List.takeWhile_append_dropWhile (p := Token.isGap) (l := right)
    have hscan := @Token.scan_blanks (right.takeWhile Token.isGap)
      (List.all_eq_true.mp List.all_takeWhile) (byteLength left) (right.dropWhile Token.isGap)
    rw [happend, ← byteLength_append] at hscan
    rw [tokens?, next?_between, hscan]
    have hgap := List.head?_dropWhile_not Token.isGap right
    cases hright : right.dropWhile Token.isGap with
    | nil => simp [Token.scan, Token.atEnd]
    | cons c rest =>
      rw [hright] at hgap happend
      have hkind := Lexeme.ofChars_kind_ne c rest
      have hlength := congrArg List.length happend
      have hrest := Lexeme.length_rest_le c rest
      have hshort : (Lexeme.ofChars c rest).rest.length < rounds := by
        simp only [List.length_append, List.length_cons] at hlength
        omega
      have hwhole : left ++ right = left ++ right.takeWhile Token.isGap ++
          c :: (Lexeme.ofChars c rest).body ++ (Lexeme.ofChars c rest).rest := by
        rw [List.append_assoc, List.append_assoc, List.cons_append, Lexeme.ofChars_append, happend]
      rw [Token.scan_cons (by simpa using hgap)]
      simp only [Option.bind_some, result, if_neg hkind, ih hshort, Option.map_some]
      rw [← hwhole, byteLength_append _ (c :: _)]
      rfl

/-- Scanning with a cursor comes to an end, cuts out whole characters, and gets the tokens of the
text. -/
theorem tokenize?_eq (text : List Char) : tokenize? text = some (Token.tokenize text) :=
  @tokens?_between _ [] text (Nat.lt_succ_self _)

end Cursor
end LinProg
