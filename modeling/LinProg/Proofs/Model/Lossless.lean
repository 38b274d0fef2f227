import LinProg.Proofs.Decimal.Digits
import LinProg.Proofs.Model.Cursor

/-!
# Nothing of a text is lost

The tokens of a text hold all of it but the blanks between them: each is the slice of its span, the
spans follow each other, and every character outside of them is a gap. Numbers and words are spelled
as such and words are not cut short. The text of a token alone is read as this token again.
-/
namespace LinProg

/-- A decimal, perhaps with a minus sign before it. -/
inductive IsNumeral : List Char → Prop
  | unsigned {text : List Char} : IsDecimal text → IsNumeral text
  | negative {text : List Char} : IsDecimal text → IsNumeral ('-' :: text)

/-- A letter or low line, with characters of words behind it. -/
def IsWord (text : List Char) : Prop :=
  (∃ c ∈ text.head?, Text.startsWord c = true) ∧ ∀ c ∈ text, Text.inWord c = true

/-- The kinds of tokens that are spelled as words. -/
def Token.Kind.isWord (kind : Token.Kind) : Bool := kind == .ident || kind == .max || kind == .min

namespace Lexeme

theorem wordKind_isWord (word : List Char) : (wordKind word).isWord = true := by
  rcases wordKind_cases word with h | h | h <;> rw [h] <;> rfl

/-- Neither a number nor a word. -/
def isSymbol (kind : Token.Kind) : Bool := kind != .number && !kind.isWord

theorem withEquals_isSymbol {double single : Token.Kind} (hd : isSymbol double = true)
    (hs : isSymbol single = true) (rest : List Char) :
    isSymbol (withEquals double single rest).kind = true := by
  fun_cases withEquals double single rest
  · exact hd
  · exact hs

theorem singleKind_isSymbol (c : Char) : isSymbol (singleKind c) = true := by
  unfold singleKind
  split <;> rfl

theorem ofSlash_isSymbol (rest : List Char) : isSymbol (ofSlash rest).kind = true := by
  fun_cases ofSlash rest <;> rfl

/-- The first token of a text is a number, a word, or a symbol. -/
theorem ofChars_spelling (c : Char) (rest : List Char) :
    (c = '-' ∧ rest.head?.any Char.isDigit = true ∨ c.isDigit = true) ∧
        ofChars c rest = ⟨.number, (numberBody rest).1, (numberBody rest).2⟩ ∨
      Text.startsWord c = true ∧
        ofChars c rest = ⟨wordKind (c :: rest.takeWhile Text.inWord), rest.takeWhile Text.inWord,
          rest.dropWhile Text.inWord⟩ ∨
      isSymbol (ofChars c rest).kind = true := by
  unfold ofChars
  split
  · exact .inr (.inr (ofSlash_isSymbol rest))
  split
  · rename_i hc
    unfold ofMinus
    split
    · exact .inl ⟨.inl ⟨hc, ‹_›⟩, rfl⟩
    · exact .inr (.inr rfl)
  split
  · exact .inr (.inr (withEquals_isSymbol rfl rfl rest))
  split
  · exact .inr (.inr (withEquals_isSymbol rfl rfl rest))
  split
  · exact .inr (.inr (withEquals_isSymbol rfl rfl rest))
  split
  · exact .inl ⟨.inr ‹_›, rfl⟩
  split
  · exact .inr (.inl ⟨‹_›, rfl⟩)
  · exact .inr (.inr (singleKind_isSymbol c))

theorem isDigitRun_cons_takeWhile {d : Char} (hd : d.isDigit = true) (text : List Char) :
    IsDigitRun (d :: text.takeWhile Char.isDigit) := by
  refine ⟨List.cons_ne_nil _ _, fun c hc => ?_⟩
  rcases List.mem_cons.mp hc with rfl | hc
  · exact hd
  · exact mem_takeWhile_isDigit hc

/-- What numbers go on with behind their first digit. -/
theorem isDecimal_numberBody {d : Char} (hd : d.isDigit = true) (text : List Char) :
    IsDecimal (d :: (numberBody text).1) := by
  have hdigits := isDigitRun_cons_takeWhile hd text
  rw [numberBody_eq]
  by_cases h : BeginsFraction (text.dropWhile Char.isDigit)
  · obtain ⟨e, rest, htext, he⟩ := h
    rw [htext, fraction_cons_cons he]
    exact .fraction hdigits (isDigitRun_cons_takeWhile he rest)
  · rw [fraction_of_not h, List.append_nil]
    exact .whole hdigits

theorem isNumeral_ofChars {c : Char} {rest : List Char} (h : (ofChars c rest).kind = .number) :
    IsNumeral (c :: (ofChars c rest).body) := by
  rcases ofChars_spelling c rest with ⟨hc, heq⟩ | ⟨_, heq⟩ | hsymbol
  · rw [heq]
    rcases hc with ⟨rfl, hhead⟩ | hd
    · cases rest with
      | nil => simp at hhead
      | cons d rest =>
        have hd : d.isDigit = true := by simpa using hhead
        rw [numberBody_cons hd]
        exact .negative (isDecimal_numberBody hd rest)
    · exact .unsigned (isDecimal_numberBody hd rest)
  · have hword := wordKind_isWord (c :: rest.takeWhile Text.inWord)
    rw [heq] at h
    rw [show wordKind (c :: rest.takeWhile Text.inWord) = .number from h] at hword
    simp [Token.Kind.isWord] at hword
  · rw [h] at hsymbol
    simp [isSymbol] at hsymbol

/-- A word goes on as long as it can. -/
theorem ofChars_of_isWord {c : Char} {rest : List Char}
    (h : (ofChars c rest).kind.isWord = true) : Text.startsWord c = true ∧
      ofChars c rest = ⟨wordKind (c :: rest.takeWhile Text.inWord), rest.takeWhile Text.inWord,
        rest.dropWhile Text.inWord⟩ := by
  rcases ofChars_spelling c rest with ⟨_, heq⟩ | hword | hsymbol
  · rw [heq] at h
    simp [Token.Kind.isWord] at h
  · exact hword
  · simp [isSymbol, h] at hsymbol

theorem isWord_cons {c : Char} {rest : List Char} (hc : Text.startsWord c = true)
    (hrest : ∀ d ∈ rest, Text.inWord d = true) : IsWord (c :: rest) := by
  refine ⟨⟨c, rfl, hc⟩, fun d hd => ?_⟩
  rcases List.mem_cons.mp hd with rfl | hd
  · exact Text.inWord_of_startsWord hc
  · exact hrest d hd

theorem isWord_ofChars {c : Char} {rest : List Char} (h : (ofChars c rest).kind.isWord = true) :
    IsWord (c :: (ofChars c rest).body) ∧
      ∀ d ∈ (ofChars c rest).rest.head?, Text.inWord d = false := by
  obtain ⟨hc, heq⟩ := ofChars_of_isWord h
  rw [heq]
  refine ⟨isWord_cons hc fun d hd => List.all_eq_true.mp List.all_takeWhile d hd, fun d hd => ?_⟩
  have hnot := List.head?_dropWhile_not Text.inWord rest
  rw [Option.mem_def.mp hd] at hnot
  simpa using hnot

end Lexeme

namespace Token

theorem tokenize_lexeme {c : Char} (hgap : isGap c = false) (rest : List Char) :
    let text := c :: (Lexeme.ofChars c rest).body
    tokenize text = [⟨(Lexeme.ofChars c rest).kind, ⟨0, byteLength text⟩, text⟩,
      atEnd (byteLength text)] := by
  intro text
  rw [tokenize, scan_cons hgap, Lexeme.ofChars_body]
  simp [scan, text]

/-- A character of a text is a gap or lies in a token. -/
theorem exists_token_of_not_isGap {c : Char} (hc : isGap c = false) (offset : ℕ)
    (text right : List Char) : ∀ left, text = left ++ c :: right →
      ∃ t ∈ scan offset text, t.span.start ≤ offset + byteLength left ∧
        offset + byteLength left + c.utf8Size ≤ t.span.stop := by
  fun_induction scan offset text with
  | case1 => simp
  | case2 offset d rest hgap ih =>
    intro left h
    cases left with
    | nil =>
      obtain ⟨rfl, _⟩ := List.cons.inj h
      simp [hgap] at hc
    | cons e left =>
      obtain ⟨rfl, hrest⟩ := List.cons.inj h
      obtain ⟨t, ht, hstart, hstop⟩ := ih left hrest
      rw [byteLength_cons, ← Nat.add_assoc]
      exact ⟨t, ht, hstart, hstop⟩
  | case3 offset d rest hgap lexeme text stop ih =>
    intro left h
    have hwhole : left ++ c :: right = text ++ lexeme.rest := by
      rw [← h, List.cons_append, Lexeme.ofChars_append]
    have hsplit : (∃ more, left = text ++ more ∧ lexeme.rest = more ++ c :: right) ∨
        ∃ more, text = left ++ c :: more := by
      rcases List.append_eq_append_iff.mp hwhole with ⟨more, htext, hmore⟩ | hsplit
      · cases more with
        | nil => exact .inl ⟨[], by simp [htext], by simpa using hmore.symm⟩
        | cons e more => exact .inr ⟨more, by rw [htext, (List.cons.inj hmore).1]⟩
      · exact .inl hsplit
    rcases hsplit with ⟨more, hleft, hrest⟩ | ⟨more, htext⟩
    · obtain ⟨t, ht, hstart, hstop⟩ := ih more hrest
      rw [hleft, byteLength_append, ← Nat.add_assoc]
      exact ⟨t, List.mem_cons_of_mem _ ht, hstart, hstop⟩
    · refine ⟨_, List.mem_cons_self, Nat.le_add_right .., ?_⟩
      simp only [stop, htext, byteLength_append, byteLength_cons]
      omega

/-- A token of a text, as it is cut out of it. -/
structure IsCutFrom (t : Token) (text : List Char) : Prop where
  kind_ne : t.kind ≠ .endOfInput
  start_lt_stop : t.span.start < t.span.stop
  liesIn : t.span.LiesIn text
  slice : slice? text t.span = some t.text
  numeral : t.kind = .number → IsNumeral t.text
  word : t.kind.isWord = true → IsWord t.text
  /-- No word goes on behind its token. -/
  word_ends : t.kind.isWord = true → ∀ left right, text = left ++ right →
    byteLength left = t.span.stop → ∀ c ∈ right.head?, Text.inWord c = false
  tokenize_text : tokenize t.text =
    [⟨t.kind, ⟨0, byteLength t.text⟩, t.text⟩, atEnd (byteLength t.text)]

/-- What is left behind as many bytes of a text is the same. -/
theorem append_inj_of_byteLength {left right left' right' : List Char}
    (h : left ++ right = left' ++ right') (hbytes : byteLength left = byteLength left') :
    right = right' := by
  have hright := dropBytes?_append left right
  rw [h, hbytes, dropBytes?_append] at hright
  exact (Option.some.inj hright).symm

theorem isCutFrom_of_mem_scan {text : List Char} {t : Token} (ht : t ∈ scan 0 text) :
    t.IsCutFrom text := by
  have hstands := standsIn_of_mem_scan ht
  have hkind := kind_ne_endOfInput_of_mem_scan ht
  have hlt := start_lt_stop_of_mem_scan ht
  obtain ⟨left, c, rest, htext, hgap, rfl⟩ := exists_lexeme_of_mem_scan ht
  refine ⟨hkind, hlt, hstands.liesIn, hstands.slice?, Lexeme.isNumeral_ofChars,
    fun h => (Lexeme.isWord_ofChars h).1, fun h before behind hcut hbytes => ?_,
    tokenize_lexeme hgap rest⟩
  have hwhole : before ++ behind =
      (left ++ c :: (Lexeme.ofChars c rest).body) ++ (Lexeme.ofChars c rest).rest := by
    rw [← hcut, htext, List.append_assoc, List.cons_append, Lexeme.ofChars_append]
  have hbehind := append_inj_of_byteLength hwhole (by rw [hbytes, byteLength_append, Nat.zero_add])
  rw [hbehind]
  exact (Lexeme.isWord_ofChars h).2

/-- A cursor comes to the end of every text, with its tokens in order and the end, which is at the
last byte. The tokens are cut out of the text, they do not overlap, and only gaps lie outside of
them. -/
theorem tokenize_loses_nothing (text : List Char) :
    ∃ tokens, Cursor.tokenize? text = some (tokens ++ [atEnd (byteLength text)]) ∧
      tokenize text = tokens ++ [atEnd (byteLength text)] ∧
      (∀ t ∈ tokens, t.IsCutFrom text) ∧
      (tokenize text).Pairwise
        (fun t u => t.span.start < u.span.start ∧ t.span.stop ≤ u.span.start) ∧
      ∀ left c right, text = left ++ c :: right →
        (∃ t ∈ tokens, t.span.start ≤ byteLength left ∧
            byteLength left + c.utf8Size ≤ t.span.stop) ∨ c ∈ [' ', '\t', '\r'] := by
  refine ⟨scan 0 text, Cursor.tokenize?_eq text, rfl, fun t => isCutFrom_of_mem_scan, ?_, ?_⟩
  · refine List.pairwise_append.mpr ⟨?_, List.pairwise_singleton .., ?_⟩
    · refine (pairwise_scan 0 text).imp_of_mem fun {t u} ht _ hle => ?_
      have hlt := start_lt_stop_of_mem_scan ht
      omega
    · intro t ht u hu
      obtain rfl := List.mem_singleton.mp hu
      have hlt := start_lt_stop_of_mem_scan ht
      have hstop := (inside_of_mem_scan ht).2
      simp only [atEnd]
      omega
  · intro left c right h
    cases hc : isGap c with
    | true => exact .inr (by simpa [isGap, or_assoc] using hc)
    | false => simpa using Or.inl (exists_token_of_not_isGap hc 0 text right left h)

end Token
end LinProg
