import LinProg.Proofs.Model.Spans

/-!
# Texts cut between tokens

Every rule for tokens looks at most two characters ahead, and only to find out whether a token goes
on. So the tokens before a cut are those that the text before it has alone, and those behind the cut
are those of the text there, if no token reaches over the cut.
-/
namespace LinProg

/-- A run of characters that ends before more text ends there because of the next character. -/
theorem head_of_length_takeWhile_le {test : Char → Bool} {text more : List Char}
    (h : ((text ++ more).takeWhile test).length ≤ text.length) :
    text.dropWhile test = [] → ∀ c ∈ more.head?, test c = false := by
  intro hall c hc
  rw [Bool.eq_false_iff]
  intro htest
  obtain ⟨more, rfl⟩ : ∃ rest, more = c :: rest := by
    cases more with
    | nil => simp at hc
    | cons d rest => exact ⟨rest, by simpa using hc⟩
  rw [List.takeWhile_append_of_pos (List.dropWhile_eq_nil_iff.mp hall),
    List.takeWhile_cons_of_pos htest, List.length_append, List.length_cons] at h
  omega

theorem takeWhile_append_of_length {test : Char → Bool} {text more : List Char}
    (h : ((text ++ more).takeWhile test).length ≤ text.length) :
    (text ++ more).takeWhile test = text.takeWhile test :=
  takeWhile_append_of_head (head_of_length_takeWhile_le h)

theorem dropWhile_append_of_length {test : Char → Bool} {text more : List Char}
    (h : ((text ++ more).takeWhile test).length ≤ text.length) :
    (text ++ more).dropWhile test = text.dropWhile test ++ more :=
  dropWhile_append_of_head (head_of_length_takeWhile_le h)

namespace Lexeme

theorem fraction_cut {text more : List Char}
    (h : (fraction (text ++ more)).1.length ≤ text.length) :
    fraction (text ++ more) = ((fraction text).1, (fraction text).2 ++ more) := by
  by_cases hlong : BeginsFraction (text ++ more)
  · obtain ⟨d, rest, htext, hd⟩ := hlong
    rw [htext, fraction_cons_cons hd] at h ⊢
    match text with
    | [] => simp at h
    | [c] => simp at h
    | c :: e :: text =>
      simp only [List.cons_append, List.cons.injEq] at htext
      obtain ⟨rfl, rfl, rfl⟩ := htext
      have hdigits : ((text ++ more).takeWhile Char.isDigit).length ≤ text.length := by
        simpa using h
      rw [fraction_cons_cons hd, takeWhile_append_of_length hdigits,
        dropWhile_append_of_length hdigits]
  · have hshort : ¬ BeginsFraction text := by
      rintro ⟨d, rest, rfl, hd⟩
      exact hlong ⟨d, rest ++ more, rfl, hd⟩
    rw [fraction_of_not hlong, fraction_of_not hshort]

theorem numberBody_cut {text more : List Char}
    (h : (numberBody (text ++ more)).1.length ≤ text.length) :
    numberBody (text ++ more) = ((numberBody text).1, (numberBody text).2 ++ more) := by
  rw [numberBody_eq, List.length_append] at h
  have hwhole : ((text ++ more).takeWhile Char.isDigit).length ≤ text.length := by omega
  have hlength := congrArg List.length
    (List.takeWhile_append_dropWhile (p := Char.isDigit) (l := text))
  rw [takeWhile_append_of_length hwhole, dropWhile_append_of_length hwhole] at h
  rw [List.length_append] at hlength
  rw [numberBody_eq, numberBody_eq, takeWhile_append_of_length hwhole,
    dropWhile_append_of_length hwhole, fraction_cut (by omega)]

theorem blockBody_cut {text more : List Char}
    (h : (blockBody (text ++ more)).1.length ≤ text.length) :
    blockBody (text ++ more) = ((blockBody text).1, (blockBody text).2 ++ more) := by
  fun_induction blockBody text with
  | case1 rest => rfl
  | case2 c rest hmark ih =>
    have hnext : ∀ r, c = '*' → rest ++ more = '/' :: r → False := by
      intro r hc hr
      cases rest with
      | nil =>
        rw [List.nil_append] at hr
        simp [hc, hr, blockBody] at h
      | cons d rest => exact hmark rest hc (by rw [(List.cons.inj hr).1])
    rw [List.cons_append, blockBody.eq_2 _ _ hnext] at h ⊢
    rw [ih (Nat.le_of_succ_le_succ h)]
  | case3 =>
    have happend := blockBody_append more
    have hnil : (blockBody more).1 = [] := List.eq_nil_of_length_eq_zero (Nat.le_zero.mp h)
    rw [hnil, List.nil_append] at happend
    exact Prod.ext hnil happend

theorem withEquals_cut {double single : Token.Kind} {text more : List Char}
    (h : (withEquals double single (text ++ more)).body.length ≤ text.length) :
    withEquals double single (text ++ more) = (withEquals double single text).before more := by
  cases text with
  | nil =>
    unfold withEquals at h ⊢
    split at h
    · simp at h
    · simp_all [before]
  | cons c text => by_cases hc : c = '=' <;> simp [withEquals, before, hc]

theorem ofMinus_cut {text more : List Char}
    (h : (ofMinus (text ++ more)).body.length ≤ text.length) :
    ofMinus (text ++ more) = (ofMinus text).before more := by
  cases text with
  | nil =>
    cases more with
    | nil => rfl
    | cons d more =>
      cases hd : d.isDigit with
      | true => simp [ofMinus, hd, numberBody_cons hd] at h
      | false => simp [ofMinus, hd, before]
  | cons c text =>
    cases hc : c.isDigit with
    | true =>
      have hbody : (numberBody (c :: text ++ more)).1.length ≤ (c :: text).length := by
        simpa [ofMinus, hc] using h
      have hcut := numberBody_cut hbody
      rw [List.cons_append] at hcut
      simp [ofMinus, hc, hcut, before]
    | false => simp [ofMinus, hc, before]

theorem ofSlash_cut {text more : List Char}
    (h : (ofSlash (text ++ more)).body.length ≤ text.length) :
    ofSlash (text ++ more) = (ofSlash text).before more := by
  fun_cases ofSlash text with
  | case1 text =>
    have hline : ((text ++ more).takeWhile (· != '\n')).length ≤ text.length := by
      simpa [ofSlash] using h
    simp [ofSlash, before, takeWhile_append_of_length hline, dropWhile_append_of_length hline]
  | case2 text =>
    have hblock : (blockBody (text ++ more)).1.length ≤ text.length := by
      simpa [ofSlash] using h
    simp [ofSlash, before, blockBody_cut hblock]
  | case3 text hslash hstar =>
    have hmark : ∀ mark, mark = '/' ∨ mark = '*' → ∀ rest, text ++ more = mark :: rest → False := by
      intro mark hmark rest hrest
      cases text with
      | nil =>
        rw [List.nil_append] at hrest
        rcases hmark with rfl | rfl <;> simp [hrest, ofSlash] at h
      | cons c text =>
        have hc : c = mark := (List.cons.inj hrest).1
        rcases hmark with rfl | rfl
        · exact hslash text (by rw [hc])
        · exact hstar text (by rw [hc])
    rw [ofSlash.eq_3 _ (hmark '/' (.inl rfl)) (hmark '*' (.inr rfl)), before]

/-- A token that ends before a cut is the first token of the text before the cut. -/
theorem ofChars_cut {c : Char} {text more : List Char}
    (h : (ofChars c (text ++ more)).body.length ≤ text.length) :
    ofChars c (text ++ more) = (ofChars c text).before more := by
  unfold ofChars at h ⊢
  split_ifs at h ⊢
  · exact ofSlash_cut h
  · exact ofMinus_cut h
  · exact withEquals_cut h
  · exact withEquals_cut h
  · exact withEquals_cut h
  · rw [numberBody_cut h]
    rfl
  · rw [takeWhile_append_of_length h, dropWhile_append_of_length h]
    rfl
  · rfl

end Lexeme

theorem eq_nil_of_byteLength {text : List Char} (h : byteLength text = 0) : text = [] := by
  cases text with
  | nil => rfl
  | cons c text =>
    have hc := c.utf8Size_pos
    rw [byteLength_cons] at h
    omega

/-- Of two beginnings of one text, that with fewer bytes has fewer characters. -/
theorem length_le_of_byteLength_le {left right left' right' : List Char}
    (h : left ++ right = left' ++ right') (hle : byteLength left ≤ byteLength left') :
    left.length ≤ left'.length := by
  rcases List.append_eq_append_iff.mp h with ⟨more, rfl, _⟩ | ⟨more, rfl, _⟩
  · simp
  · rw [byteLength_append] at hle
    have hmore : more = [] := eq_nil_of_byteLength (by omega)
    simp [hmore]

namespace Token

/-- No token of the first text, which begins at an offset, goes on in the second. -/
def IsSeam (offset : ℕ) (a b : List Char) : Prop :=
  ∀ t ∈ scan offset (a ++ b), t.span.stop ≤ offset + byteLength a ∨
    offset + byteLength a ≤ t.span.start

/-- Where no token reaches over a cut, each part of the text has its tokens alone. -/
theorem scan_append_of_isSeam {offset : ℕ} {a b : List Char} (h : IsSeam offset a b) :
    scan offset (a ++ b) = scan offset a ++ scan (offset + byteLength a) b := by
  fun_induction scan offset a with
  | case1 => simp
  | case2 offset c rest hgap ih =>
    have hseam : IsSeam (offset + c.utf8Size) rest b := by
      intro t ht
      rw [Nat.add_assoc]
      exact h t (by rwa [List.cons_append, scan_gap hgap])
    rw [List.cons_append, scan_gap hgap, ih hseam, byteLength_cons, Nat.add_assoc]
  | case3 offset c rest hgap lexeme text stop ih =>
    have hscan := scan_cons (Bool.eq_false_iff.mpr hgap) offset (rest ++ b)
    have hc := c.utf8Size_pos
    have hbody : byteLength (Lexeme.ofChars c (rest ++ b)).body ≤ byteLength rest := by
      have hfirst := h _ (by rw [List.cons_append, hscan]; exact List.mem_cons_self)
      simp only [byteLength_cons] at hfirst
      omega
    have hlexeme : Lexeme.ofChars c (rest ++ b) = lexeme.before b :=
      Lexeme.ofChars_cut (length_le_of_byteLength_le (Lexeme.ofChars_append c _) hbody)
    have hstop : stop + byteLength lexeme.rest = offset + byteLength (c :: rest) := by
      rw [Nat.add_assoc, ← byteLength_append, List.cons_append, Lexeme.ofChars_append]
    rw [hlexeme] at hscan
    have hseam : IsSeam stop lexeme.rest b := by
      intro t ht
      rw [hstop]
      exact h t (by rw [List.cons_append, hscan]; exact List.mem_cons_of_mem _ ht)
    rw [List.cons_append, hscan, ← hstop]
    exact congrArg _ (ih hseam)

end Token
end LinProg
