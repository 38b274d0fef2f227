import LinProg.Proofs.Model.Lexemes
import LinProg.Proofs.Model.Places
import Mathlib.Data.List.TakeWhile

/-!
# The tokens before a break

A line end or a gap stops every token but a comment. The tokens before it are then the same,
whatever comes after it, and those after it are the same wherever they stand. Every token is also
the only one of its own text.
-/
namespace LinProg

/-- A character that goes on no token but a comment. -/
def Token.isBreak (c : Char) : Bool := c == '\n' || isGap c

/-- The text is empty or begins with a break. -/
def Breaks (text : List Char) : Prop := ∀ c ∈ text.head?, Token.isBreak c = true

/-- The text is that of a comment which more text goes on: one without its closing mark, or one
that ends with its line, as long as the line does not end. -/
def CommentGoesOn (text more : List Char) : Prop :=
  (∃ body, text = '/' :: '*' :: body ∧ ¬ ['*', '/'] <:+: body) ∨
    (∃ body, text = '/' :: '/' :: body) ∧ ∃ c ∈ more.head?, c ≠ '\n'

@[simp] theorem breaks_cons (c : Char) (text : List Char) :
    Breaks (c :: text) ↔ Token.isBreak c = true := by
  simp [Breaks]

theorem Token.isBreak_cases {c : Char} (h : isBreak c = true) :
    c = '\n' ∨ c = ' ' ∨ c = '\t' ∨ c = '\r' := by
  simpa [isBreak, isGap, or_assoc] using h

/-- What can be told of every break by looking at each is told of what begins with one. -/
theorem Breaks.head {test : Char → Bool} {text : List Char} (h : Breaks text)
    (htest : ['\n', ' ', '\t', '\r'].any test = false) : ∀ c ∈ text.head?, test c = false := by
  intro c hc
  have hbreaks := List.any_eq_false.mp htest
  have hmem : c ∈ ['\n', ' ', '\t', '\r'] := by simpa using Token.isBreak_cases (h c hc)
  simpa using hbreaks c hmem

theorem takeWhile_append_of_head {test : Char → Bool} {text more : List Char}
    (h : text.dropWhile test = [] → ∀ c ∈ more.head?, test c = false) :
    (text ++ more).takeWhile test = text.takeWhile test := by
  induction text with
  | nil => cases more <;> simp_all
  | cons c text ih => cases hc : test c <;> simp_all

theorem dropWhile_append_of_head {test : Char → Bool} {text more : List Char}
    (h : text.dropWhile test = [] → ∀ c ∈ more.head?, test c = false) :
    (text ++ more).dropWhile test = text.dropWhile test ++ more := by
  induction text with
  | nil => cases more <;> simp_all
  | cons c text ih => cases hc : test c <;> simp_all

namespace Lexeme

/-- The lexeme with more text after it. -/
def before (lexeme : Lexeme) (more : List Char) : Lexeme :=
  { lexeme with rest := lexeme.rest ++ more }

theorem numberBody_before {more : List Char} (h : Breaks more) (text : List Char) :
    numberBody (text ++ more) = ((numberBody text).1, (numberBody text).2 ++ more) := by
  have hdigit : ∀ c ∈ more.head?, c.isDigit = false := h.head (by decide)
  have hpoint : ∀ c ∈ more.head?, (c == '.') = false := h.head (by decide)
  unfold numberBody
  rw [takeWhile_append_of_head fun _ => hdigit, dropWhile_append_of_head fun _ => hdigit]
  cases text.dropWhile Char.isDigit with
  | nil =>
    cases more with
    | nil => rfl
    | cons d more =>
      have hd : d ≠ '.' := by simpa using hpoint
      split <;> simp_all
  | cons c rest =>
    by_cases hc : c = '.'
    · cases rest with
      | nil => cases more <;> simp_all
      | cons d rest =>
        simp only [List.cons_append, hc, takeWhile_append_of_head fun _ => hdigit,
          dropWhile_append_of_head fun _ => hdigit]
        split <;> rfl
    · split <;> split <;> simp_all

theorem blockBody_before {text : List Char} (more : List Char)
    (h : (blockBody text).2 = [] → ['*', '/'] <:+: (blockBody text).1) :
    blockBody (text ++ more) = ((blockBody text).1, (blockBody text).2 ++ more) := by
  fun_induction blockBody text with
  | case1 rest => rfl
  | case2 c rest hmark ih =>
    have happend := blockBody_append rest
    have hrest : (blockBody rest).2 = [] → ['*', '/'] <:+: (blockBody rest).1 := by
      intro hnil
      rcases List.infix_cons_iff.mp (h hnil) with hstart | hlater
      · rw [hnil, List.append_nil] at happend
        rw [happend] at hstart
        obtain ⟨left, hleft⟩ := hstart
        simp at hleft
        exact absurd hleft.2.symm (hmark left hleft.1.symm)
      · exact hlater
    cases rest with
    | nil =>
      have hnil := hrest rfl
      simp [blockBody] at hnil
    | cons d rest =>
      have hnext : ∀ r, c = '*' → d :: (rest ++ more) = '/' :: r → False := by
        intro r hc hd
        exact hmark rest hc (by rw [(List.cons.inj hd).1])
      rw [List.cons_append, List.cons_append, blockBody.eq_2 _ _ hnext, ← List.cons_append,
        ih hrest]
  | case3 =>
    have hnil := h rfl
    simp at hnil

theorem withEquals_before {more : List Char} (hbreaks : Breaks more) (double single : Token.Kind)
    (rest : List Char) :
    withEquals double single (rest ++ more) = (withEquals double single rest).before more := by
  have hequals : ∀ c ∈ more.head?, (c == '=') = false := hbreaks.head (by decide)
  cases rest with
  | nil => cases more <;> simp_all [withEquals, before]
  | cons c rest => by_cases hc : c = '=' <;> simp [withEquals, before, hc]

theorem ofMinus_before {more : List Char} (hbreaks : Breaks more) (rest : List Char) :
    ofMinus (rest ++ more) = (ofMinus rest).before more := by
  have hdigit : ∀ c ∈ more.head?, c.isDigit = false := hbreaks.head (by decide)
  have hhead : (rest ++ more).head?.any Char.isDigit = rest.head?.any Char.isDigit := by
    cases rest with
    | nil => cases more <;> simp_all
    | cons c rest => rfl
  unfold ofMinus
  rw [hhead, numberBody_before hbreaks]
  split <;> rfl

/-- A text that does not begin with a mark begins with none when more text follows. -/
theorem append_ne_cons {mark : Char} {text more : List Char}
    (hmore : ∀ c ∈ more.head?, (c == mark) = false) (htext : ∀ rest, text = mark :: rest → False) :
    ∀ rest, text ++ more = mark :: rest → False := by
  intro rest h
  cases text with
  | nil =>
    rw [List.nil_append] at h
    simp [h] at hmore
  | cons c text => exact htext text (by rw [(List.cons.inj h).1])

theorem ofSlash_before {rest more : List Char} (hbreaks : Breaks more)
    (h : (ofSlash rest).rest = [] → ¬ CommentGoesOn ('/' :: (ofSlash rest).body) more) :
    ofSlash (rest ++ more) = (ofSlash rest).before more := by
  fun_cases ofSlash rest with
  | case1 rest =>
    have hline : rest.dropWhile (· != '\n') = [] → ∀ c ∈ more.head?, (c != '\n') = false := by
      intro hnil c hc
      have hopen := h hnil
      simp only [CommentGoesOn, ofSlash, not_or, not_and] at hopen
      simpa using fun hne => hopen.2 ⟨_, rfl⟩ ⟨c, hc, hne⟩
    simp [ofSlash, before, takeWhile_append_of_head hline, dropWhile_append_of_head hline]
  | case2 rest =>
    have hblock := @blockBody_before rest more fun hnil => by
      have hopen := h hnil
      simp only [CommentGoesOn, ofSlash, not_or, not_exists, not_and, not_not] at hopen
      exact hopen.1 _ rfl
    simp [ofSlash, hblock, before]
  | case3 rest hslash hstar =>
    have hnoslash : ∀ c ∈ more.head?, (c == '/') = false := hbreaks.head (by decide)
    have hnostar : ∀ c ∈ more.head?, (c == '*') = false := hbreaks.head (by decide)
    rw [ofSlash.eq_3 _ (append_ne_cons hnoslash hslash) (append_ne_cons hnostar hstar), before]

/-- A break ends the first token of a text, unless the token is a comment that goes on. -/
theorem ofChars_before {c : Char} {rest more : List Char} (hbreaks : Breaks more)
    (h : (ofChars c rest).rest = [] → ¬ CommentGoesOn (c :: (ofChars c rest).body) more) :
    ofChars c (rest ++ more) = (ofChars c rest).before more := by
  have hword : ∀ d ∈ more.head?, Text.inWord d = false := hbreaks.head (by decide)
  unfold ofChars at h ⊢
  split
  · rename_i hc
    rw [if_pos hc] at h
    exact ofSlash_before hbreaks (hc ▸ h)
  split
  · exact ofMinus_before hbreaks rest
  split
  · exact withEquals_before hbreaks ..
  split
  · exact withEquals_before hbreaks ..
  split
  · exact withEquals_before hbreaks ..
  split
  · rw [numberBody_before hbreaks]
    rfl
  split
  · rw [takeWhile_append_of_head fun _ => hword, dropWhile_append_of_head fun _ => hword]
    rfl
  · rfl

theorem takeWhile_takeWhile_self (test : Char → Bool) (text : List Char) :
    (text.takeWhile test).takeWhile test = text.takeWhile test :=
  List.takeWhile_eq_self_iff.mpr fun _ hc => List.all_eq_true.mp List.all_takeWhile _ hc

theorem dropWhile_takeWhile_self (test : Char → Bool) (text : List Char) :
    (text.takeWhile test).dropWhile test = [] :=
  List.dropWhile_eq_nil_iff.mpr fun _ hc => List.all_eq_true.mp List.all_takeWhile _ hc

theorem numberBody_body (text : List Char) :
    numberBody (numberBody text).1 = ((numberBody text).1, []) := by
  have hdigits : numberBody (text.takeWhile Char.isDigit) = (text.takeWhile Char.isDigit, []) := by
    simp [numberBody, takeWhile_takeWhile_self, dropWhile_takeWhile_self]
  fun_cases numberBody text with
  | case1 whole d rest hrest hd =>
    have hpoint : ∀ c ∈ ('.' :: d :: rest.takeWhile Char.isDigit).head?, c.isDigit = false := by
      simp
    simp only [numberBody, takeWhile_append_of_head fun _ => hpoint,
      dropWhile_append_of_head fun _ => hpoint, whole, takeWhile_takeWhile_self,
      dropWhile_takeWhile_self, List.nil_append, if_pos hd]
  | case2 => exact hdigits
  | case3 => exact hdigits

theorem blockBody_body (text : List Char) :
    blockBody (blockBody text).1 = ((blockBody text).1, []) := by
  fun_induction blockBody text with
  | case1 rest => rfl
  | case2 c rest hmark ih =>
    have hnext : ∀ r, c = '*' → (blockBody rest).1 = '/' :: r → False := by
      intro r hc hr
      have happend := blockBody_append rest
      rw [hr] at happend
      exact hmark _ hc happend.symm
    rw [blockBody.eq_2 _ _ hnext, ih]
  | case3 => rfl

theorem withEquals_body (double single : Token.Kind) (rest : List Char) :
    withEquals double single (withEquals double single rest).body =
      ⟨(withEquals double single rest).kind, (withEquals double single rest).body, []⟩ := by
  fun_cases withEquals double single rest <;> rfl

theorem ofSlash_body (rest : List Char) :
    ofSlash (ofSlash rest).body = ⟨(ofSlash rest).kind, (ofSlash rest).body, []⟩ := by
  fun_cases ofSlash rest
  · simp [ofSlash, takeWhile_takeWhile_self, dropWhile_takeWhile_self]
  · simp [ofSlash, blockBody_body]
  · rfl

theorem ofMinus_body (rest : List Char) :
    ofMinus (ofMinus rest).body = ⟨(ofMinus rest).kind, (ofMinus rest).body, []⟩ := by
  fun_cases ofMinus rest with
  | case1 h =>
    cases rest with
    | nil => simp at h
    | cons d rest =>
      have hd : d.isDigit = true := by simpa using h
      have hbody := numberBody_body (d :: rest)
      rw [numberBody_cons hd] at hbody ⊢
      simp [ofMinus, hd, hbody]
  | case2 h => simp [ofMinus]

/-- The text of a token is read as this token alone. -/
theorem ofChars_body (c : Char) (rest : List Char) :
    ofChars c (ofChars c rest).body = ⟨(ofChars c rest).kind, (ofChars c rest).body, []⟩ := by
  fun_cases ofChars c rest <;>
    simp [ofChars, *, ofSlash_body, ofMinus_body, withEquals_body, numberBody_body,
      takeWhile_takeWhile_self, dropWhile_takeWhile_self]

end Lexeme

namespace Token

theorem scan_gap {c : Char} (h : isGap c = true) (offset : ℕ) (text : List Char) :
    scan offset (c :: text) = scan (offset + c.utf8Size) text := by
  rw [scan, if_pos h]

theorem scan_blanks {blanks : List Char} (h : ∀ c ∈ blanks, isGap c = true) (offset : ℕ)
    (text : List Char) :
    scan offset (blanks ++ text) = scan (offset + byteLength blanks) text := by
  induction blanks generalizing offset with
  | nil => rfl
  | cons c blanks ih =>
    rw [List.cons_append, scan_gap (h c List.mem_cons_self),
      ih fun d hd => h d (List.mem_cons_of_mem c hd), byteLength_cons, Nat.add_assoc]

theorem scan_cons {c : Char} (h : isGap c = false) (offset : ℕ) (text : List Char) :
    let lexeme := Lexeme.ofChars c text
    let stop := offset + byteLength (c :: lexeme.body)
    scan offset (c :: text) =
      ⟨lexeme.kind, ⟨offset, stop⟩, c :: lexeme.body⟩ :: scan stop lexeme.rest := by
  rw [scan, if_neg (Bool.not_eq_true _ ▸ h)]

/-- Before a break, the tokens of a text are those that it has alone. -/
theorem scan_append {offset : ℕ} {text more : List Char} (hbreaks : Breaks more)
    (hlast : ∀ t ∈ (scan offset text).getLast?, ¬ CommentGoesOn t.text more) :
    scan offset (text ++ more) = scan offset text ++ scan (offset + byteLength text) more := by
  fun_induction scan offset text with
  | case1 => simp
  | case2 offset c rest hgap ih =>
    rw [List.cons_append, scan_gap hgap, ih hlast, byteLength_cons, Nat.add_assoc]
  | case3 offset c rest hgap lexeme text stop ih =>
    have hlexeme : Lexeme.ofChars c (rest ++ more) = lexeme.before more := by
      refine Lexeme.ofChars_before hbreaks fun hnil => ?_
      have hrest : lexeme.rest = [] := hnil
      exact hlast ⟨lexeme.kind, ⟨offset, stop⟩, text⟩ (by simp [hrest, scan])
    have hmore := ih fun t ht => hlast t (by simp [List.getLast?_cons, Option.mem_def.mp ht])
    have hstop : stop + byteLength lexeme.rest = offset + byteLength (c :: rest) := by
      rw [Nat.add_assoc, ← byteLength_append, List.cons_append, Lexeme.ofChars_append]
    rw [List.cons_append, scan_cons (Bool.eq_false_iff.mpr hgap), hlexeme, ← hstop]
    exact congrArg _ hmore

/-- The tokens of a text are moved with the text. -/
theorem scan_move (offset shift : ℕ) (text : List Char) :
    scan (offset + shift) text = (scan offset text).map (Token.move (· + shift) (· + shift)) := by
  fun_induction scan offset text with
  | case1 => simp [scan]
  | case2 offset c rest hgap ih =>
    rw [scan_gap hgap, ← ih, Nat.add_right_comm]
  | case3 offset c rest hgap lexeme text stop ih =>
    have hstop : offset + shift + byteLength text = stop + shift := Nat.add_right_comm ..
    rw [scan_cons (Bool.eq_false_iff.mpr hgap), List.map_cons, ← ih]
    simp only [Token.move, Span.move]
    rw [← hstop]

/-- At most so many tokens and gaps of a text that begins at an offset. -/
def scanUpTo : ℕ → ℕ → List Char → List Token
  | 0, _, _ | _, _, [] => []
  | count + 1, offset, c :: rest =>
      if isGap c then scanUpTo count (offset + c.utf8Size) rest
      else
        let lexeme := Lexeme.ofChars c rest
        let text := c :: lexeme.body
        let stop := offset + byteLength text
        ⟨lexeme.kind, ⟨offset, stop⟩, text⟩ :: scanUpTo count stop lexeme.rest

theorem scan_eq_scanUpTo {count : ℕ} {text : List Char} (h : text.length ≤ count) (offset : ℕ) :
    scan offset text = scanUpTo count offset text := by
  induction count generalizing offset text with
  | zero =>
    cases text with
    | nil => simp [scan, scanUpTo]
    | cons c rest => simp at h
  | succ count ih =>
    cases text with
    | nil => simp [scan, scanUpTo]
    | cons c rest =>
      have hrest : rest.length ≤ count := Nat.le_of_succ_le_succ h
      have hleft := Nat.le_trans (Lexeme.length_rest_le c rest) hrest
      rw [scan, scanUpTo]
      simp only [ih hrest, ih hleft]

theorem scan_eq (offset : ℕ) (text : List Char) :
    scan offset text = scanUpTo text.length offset text :=
  scan_eq_scanUpTo (Nat.le_refl _) offset

/-- What a token is apart from its place. -/
def word (t : Token) : Kind × List Char := (t.kind, t.text)

/-- Tokens that are all moved to the beginning of the text are told apart by their words alone. -/
theorem map_move_zero (tokens : List Token) : tokens.map (move (fun _ => 0) fun _ => 0) =
    (tokens.map word).map fun w => ⟨w.1, ⟨0, 0⟩, w.2⟩ := by
  rw [List.map_map]
  rfl

/-- Some text has the token, and the token is no comment. -/
structure Possible (t : Token) : Prop where
  kind_ne : t.kind ≠ .comment
  exists_lexeme : ∃ c body, isGap c = false ∧ t.text = c :: body ∧
    Lexeme.ofChars c body = ⟨t.kind, body, []⟩

theorem possible_of_mem_scan {offset : ℕ} {text : List Char} {t : Token}
    (ht : t ∈ scan offset text) (hkind : t.kind ≠ .comment) : t.Possible := by
  fun_induction scan offset text with
  | case1 => simp at ht
  | case2 offset c rest hgap ih => exact ih ht
  | case3 offset c rest hgap lexeme text stop ih =>
    rcases List.mem_cons.mp ht with rfl | ht
    · exact ⟨hkind, c, lexeme.body, Bool.eq_false_iff.mpr hgap, rfl, Lexeme.ofChars_body c rest⟩
    · exact ih ht

theorem possible_of_mem_significant {text : List Char} {t : Token} (ht : t ∈ significant text) :
    t.Possible := by
  obtain ⟨hscan, hkind⟩ := List.mem_filter.mp ht
  exact possible_of_mem_scan hscan (by simpa using hkind)

theorem Possible.hasValue {t : Token} (h : t.Possible) (hkind : t.kind = .number) :
    Literal.HasValue t.text := by
  obtain ⟨c, body, _, htext, hlexeme⟩ := h.exists_lexeme
  rcases Lexeme.ofChars_cases c body with hmark | ⟨_, hvalue⟩
  · rw [hlexeme] at hmark
    exact absurd hkind hmark.1
  · rwa [hlexeme, ← htext] at hvalue

/-- A comment begins with a slash and one of two more marks, and with nothing else. -/
theorem Possible.not_commentGoesOn {t : Token} (h : t.Possible) (more : List Char) :
    ¬ CommentGoesOn t.text more := by
  obtain ⟨c, body, _, htext, hlexeme⟩ := h.exists_lexeme
  have hkind : (Lexeme.ofChars c body).kind ≠ .comment := by
    rw [hlexeme]
    exact h.kind_ne
  rintro (⟨text, hopen, _⟩ | ⟨⟨text, hopen⟩, _⟩)
  all_goals
    rw [htext, List.cons.injEq] at hopen
    obtain ⟨rfl, rfl⟩ := hopen
    exact hkind rfl

/-- The tokens with a space after each. -/
def spaced (tokens : List Token) : List Char := tokens.flatMap fun t => t.text ++ [' ']

theorem word_scan_spaced {tokens : List Token} (h : ∀ t ∈ tokens, t.Possible) (offset : ℕ) :
    (scan offset (spaced tokens)).map word = tokens.map word := by
  induction tokens generalizing offset with
  | nil => simp [spaced, scan]
  | cons t tokens ih =>
    have ht := h t List.mem_cons_self
    obtain ⟨c, body, hgap, htext, hlexeme⟩ := ht.exists_lexeme
    have hbreaks : Breaks (' ' :: spaced tokens) := (breaks_cons ..).mpr rfl
    have hfirst : Lexeme.ofChars c (body ++ ' ' :: spaced tokens) =
        ⟨t.kind, body, ' ' :: spaced tokens⟩ := by
      rw [Lexeme.ofChars_before hbreaks fun _ => ?_, hlexeme]
      · rfl
      · rw [hlexeme, ← htext]
        exact ht.not_commentGoesOn _
    have hspaced : spaced (t :: tokens) = c :: (body ++ ' ' :: spaced tokens) := by
      simp [spaced, htext]
    rw [hspaced, scan_cons hgap, hfirst]
    simp only [List.map_cons]
    rw [scan_gap rfl, ih fun u hu => h u (List.mem_cons_of_mem t hu)]
    simp [word, htext]

/-- Any tokens that texts have are together those of one text. -/
theorem exists_significant {tokens : List Token} (h : ∀ t ∈ tokens, t.Possible) :
    ∃ text, (significant text).map word = tokens.map word := by
  refine ⟨spaced tokens, ?_⟩
  have hscan := word_scan_spaced h 0
  have hall : significant (spaced tokens) = scan 0 (spaced tokens) := by
    refine List.filter_eq_self.mpr fun t ht => ?_
    have hword : word t ∈ tokens.map word := hscan ▸ List.mem_map_of_mem ht
    obtain ⟨u, hu, heq⟩ := List.mem_map.mp hword
    have hkind : u.kind = t.kind := congrArg Prod.fst heq
    simpa [hkind] using (h u hu).kind_ne
  rw [hall, hscan]

end Token
end LinProg
