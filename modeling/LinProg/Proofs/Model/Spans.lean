import LinProg.Model.Problem
import LinProg.Proofs.Model.Faults
import LinProg.Proofs.Model.Meaning

/-!
# Spans lie in the text

Every token stands where its span says, and the tokens of a text stand one behind the other. The
spans of statements and terms reach from one token to another, so that both of their ends are ends
of characters of the text.
-/
namespace LinProg

/-- The byte lies before a character of the text or behind the last one. -/
def IsBoundary (text : List Char) (byte : ℕ) : Prop :=
  ∃ left right, text = left ++ right ∧ byteLength left = byte

/-- The span covers characters of the text. -/
structure Span.LiesIn (s : Span) (text : List Char) : Prop where
  start_le_stop : s.start ≤ s.stop
  stop_le : s.stop ≤ byteLength text
  start_isBoundary : IsBoundary text s.start
  stop_isBoundary : IsBoundary text s.stop

theorem IsBoundary.le {text : List Char} {byte : ℕ} (h : IsBoundary text byte) :
    byte ≤ byteLength text := by
  obtain ⟨left, right, rfl, rfl⟩ := h
  simp

theorem isBoundary_zero (text : List Char) : IsBoundary text 0 := ⟨[], text, rfl, rfl⟩

theorem Span.liesIn_zero (text : List Char) : Span.LiesIn ⟨0, 0⟩ text :=
  ⟨Nat.le_refl 0, Nat.zero_le _, isBoundary_zero text, isBoundary_zero text⟩

/-- From one span of a text to one that does not stop before it. -/
theorem Span.LiesIn.join {s t : Span} {text : List Char} (hs : s.LiesIn text) (ht : t.LiesIn text)
    (hle : s.start ≤ t.stop) : Span.LiesIn ⟨s.start, t.stop⟩ text :=
  ⟨hle, ht.stop_le, hs.start_isBoundary, ht.stop_isBoundary⟩

namespace Token

/-- A token stands in a text, which begins at an offset, where its span says. -/
def StandsIn (t : Token) (offset : ℕ) (text : List Char) : Prop :=
  ∃ left right, text = left ++ (t.text ++ right) ∧
    t.span = ⟨offset + byteLength left, offset + byteLength left + byteLength t.text⟩

/-- Every token of a text is the first one of what follows its first byte. -/
theorem exists_lexeme_of_mem_scan {offset : ℕ} {text : List Char} {t : Token}
    (ht : t ∈ scan offset text) : ∃ left c rest, text = left ++ c :: rest ∧ isGap c = false ∧
      t = ⟨(Lexeme.ofChars c rest).kind,
        ⟨offset + byteLength left,
          offset + byteLength left + byteLength (c :: (Lexeme.ofChars c rest).body)⟩,
        c :: (Lexeme.ofChars c rest).body⟩ := by
  fun_induction scan offset text with
  | case1 => simp at ht
  | case2 offset c rest hgap ih =>
    obtain ⟨left, d, more, hrest, hd, rfl⟩ := ih ht
    exact ⟨c :: left, d, more, by rw [hrest]; rfl, hd, by simp [Nat.add_assoc]⟩
  | case3 offset c rest hgap lexeme text stop ih =>
    rcases List.mem_cons.mp ht with rfl | ht
    · exact ⟨[], c, rest, rfl, Bool.eq_false_iff.mpr hgap, rfl⟩
    · obtain ⟨left, d, more, hrest, hd, rfl⟩ := ih ht
      refine ⟨text ++ left, d, more, ?_, hd, by simp [stop, Nat.add_assoc]⟩
      rw [List.append_assoc, ← hrest, List.cons_append, Lexeme.ofChars_append]

theorem standsIn_of_mem_scan {offset : ℕ} {text : List Char} {t : Token}
    (ht : t ∈ scan offset text) : t.StandsIn offset text := by
  obtain ⟨left, c, rest, rfl, _, rfl⟩ := exists_lexeme_of_mem_scan ht
  refine ⟨left, (Lexeme.ofChars c rest).rest, ?_, rfl⟩
  rw [List.cons_append, Lexeme.ofChars_append]

theorem start_lt_stop_of_mem_scan {offset : ℕ} {text : List Char} {t : Token}
    (ht : t ∈ scan offset text) : t.span.start < t.span.stop := by
  obtain ⟨left, c, rest, _, _, rfl⟩ := exists_lexeme_of_mem_scan ht
  have hc := c.utf8Size_pos
  simp only [byteLength_cons]
  omega

/-- A token lies between the offset and the end of its text. -/
theorem inside_of_mem_scan {offset : ℕ} {text : List Char} {t : Token} (ht : t ∈ scan offset text) :
    offset ≤ t.span.start ∧ t.span.stop ≤ offset + byteLength text := by
  obtain ⟨left, right, rfl, hspan⟩ := standsIn_of_mem_scan ht
  simp only [hspan, byteLength_append]
  omega

theorem StandsIn.liesIn {t : Token} {text : List Char} (h : t.StandsIn 0 text) :
    t.span.LiesIn text := by
  obtain ⟨left, right, rfl, hspan⟩ := h
  have hstart : IsBoundary (left ++ (t.text ++ right)) t.span.start :=
    ⟨left, _, rfl, by simp [hspan]⟩
  have hstop : IsBoundary (left ++ (t.text ++ right)) t.span.stop :=
    ⟨left ++ t.text, right, by simp, by simp [hspan]⟩
  exact ⟨by simp [hspan], hstop.le, hstart, hstop⟩

/-- Tokens that are not empty and stand one behind the other. -/
structure Ordered (tokens : List Token) : Prop where
  start_lt_stop : ∀ t ∈ tokens, t.span.start < t.span.stop
  pairwise : tokens.Pairwise fun t u => t.span.stop ≤ u.span.start

theorem Ordered.sublist {tokens others : List Token} (h : Ordered tokens)
    (hsub : others.Sublist tokens) : Ordered others :=
  ⟨fun t ht => h.start_lt_stop t (hsub.subset ht), h.pairwise.sublist hsub⟩

/-- The tokens of a text stand one behind the other, from its offset on. -/
theorem pairwise_scan (offset : ℕ) (text : List Char) :
    (scan offset text).Pairwise fun t u => t.span.stop ≤ u.span.start := by
  fun_induction scan offset text with
  | case1 => exact List.Pairwise.nil
  | case2 offset c rest hgap ih => exact ih
  | case3 offset c rest hgap lexeme text stop ih =>
    refine List.pairwise_cons.mpr ⟨fun t ht => ?_, ih⟩
    obtain ⟨left, right, _, hspan⟩ := standsIn_of_mem_scan ht
    simp [hspan]

theorem ordered_scan (offset : ℕ) (text : List Char) : Ordered (scan offset text) :=
  ⟨fun _ => start_lt_stop_of_mem_scan, pairwise_scan offset text⟩

/-- So do the tokens that matter. -/
theorem ordered_significant (text : List Char) : Ordered (significant text) :=
  (ordered_scan 0 text).sublist List.filter_sublist

end Token

namespace Grammar

theorem exists_extent {tokens : List Token} (h : tokens ≠ []) :
    ∃ t ∈ tokens, ∃ u ∈ tokens, extent tokens = ⟨t.span.start, u.span.stop⟩ := by
  refine ⟨tokens.head h, List.head_mem h, tokens.getLast h, List.getLast_mem h, ?_⟩
  simp [extent, List.head?_eq_some_head h, List.getLast?_eq_some_getLast h]

/-- The range over some tokens covers each of them. -/
theorem extent_covers {tokens : List Token} (h : Token.Ordered tokens) {t : Token}
    (ht : t ∈ tokens) :
    (extent tokens).start ≤ t.span.start ∧ t.span.stop ≤ (extent tokens).stop := by
  have hlt := h.start_lt_stop t ht
  constructor
  · obtain ⟨first, more, rfl⟩ := List.exists_cons_of_ne_nil (List.ne_nil_of_mem ht)
    rcases List.mem_cons.mp ht with rfl | hmore
    · exact Nat.le_refl _
    · have hfirst := h.start_lt_stop first List.mem_cons_self
      have hbehind := (List.pairwise_cons.mp h.pairwise).1 t hmore
      simp only [extent, List.head?_cons, Option.map_some, Option.getD_some]
      omega
  · obtain ⟨before, last, rfl⟩ := List.eq_nil_or_concat' tokens |>.resolve_left
      (List.ne_nil_of_mem ht)
    have hlast := h.start_lt_stop last (by simp)
    rcases List.mem_append.mp ht with hbefore | hmem
    · have hbehind := (List.pairwise_append.mp h.pairwise).2.2 t hbefore last
        (List.mem_singleton_self last)
      simp only [extent, List.getLast?_concat, Option.map_some, Option.getD_some]
      omega
    · obtain rfl := List.mem_singleton.mp hmem
      simp [extent]

theorem extent_start_lt_stop {tokens : List Token} (h : Token.Ordered tokens) (hne : tokens ≠ []) :
    (extent tokens).start < (extent tokens).stop := by
  obtain ⟨t, ht, _⟩ := exists_extent hne
  have hlt := h.start_lt_stop t ht
  have hcovers := extent_covers h ht
  omega

/-- The range over some tokens of a text lies in the text. -/
theorem extent_liesIn {text : List Char} {tokens : List Token}
    (h : tokens.Sublist (Token.scan 0 text)) (hne : tokens ≠ []) : (extent tokens).LiesIn text := by
  have hspan (t : Token) (ht : t ∈ tokens) : t.span.LiesIn text :=
    (Token.standsIn_of_mem_scan (h.subset ht)).liesIn
  have hlt := extent_start_lt_stop ((Token.ordered_scan 0 text).sublist h) hne
  obtain ⟨t, ht, u, hu, hextent⟩ := exists_extent hne
  rw [hextent] at hlt ⊢
  exact (hspan t ht).join (hspan u hu) hlt.le

theorem infix_flatMap_of_mem {A : Type} (spell : A → List Token) {a : A} {as : List A}
    (h : a ∈ as) : spell a <:+: as.flatMap spell := by
  rw [List.flatMap_def]
  exact List.infix_of_mem_flatten (List.mem_map_of_mem h)

/-- The tokens of a statement stand together. -/
theorem Statement.tokens_infix {m : Model} {st : Statement} (h : st ∈ m.statements) :
    st.tokens <:+: m.tokens := by
  obtain ⟨leading, body⟩ := m
  cases body with
  | none => simp [Model.statements] at h
  | some b =>
    have hbody : st.tokens <:+: b.first.tokens ++ b.rest.flatMap Successor.tokens := by
      rcases List.mem_cons.mp h with rfl | h
      · exact ⟨[], _, rfl⟩
      · obtain ⟨next, hnext, rfl⟩ := List.mem_map.mp h
        have htokens : next.statement.tokens <:+: next.tokens :=
          ⟨next.separator.val :: separators next.others, [], by simp [Successor.tokens]⟩
        exact (htokens.trans (infix_flatMap_of_mem Successor.tokens hnext)).trans
          ⟨_, [], List.append_nil _⟩
    exact hbody.trans ⟨separators leading, separators b.trailing, by
      simp [Model.tokens, Body.tokens]⟩

theorem Statement.tokens_ne_nil (st : Statement) : st.tokens ≠ [] := by
  obtain ⟨t, rest, ht, _⟩ := st.tokens_eq_cons
  simp [ht]

variable {K : Type} [Scalar K]

/-- The terms of a statement, if it has any. -/
def Statement.sum? : Statement → Option Sum
  | objective _ _ sum | constraint _ sum _ _ _ => sum

theorem Statement.meaning_terms (st : Statement) :
    (st.meaning : LinProg.Statement K).terms = sumTerms st.sum? := by
  cases st <;> rfl

theorem Statement.sumTokens_sublist (st : Statement) : (sumTokens st.sum?).Sublist st.tokens := by
  cases st with
  | objective keyword colon sum =>
    exact (List.sublist_append_right ..).trans (List.sublist_cons_self ..)
  | constraint label sum relation sign rhs =>
    exact (List.sublist_append_right ..).trans (List.sublist_append_left ..)

/-- The tokens of each term of a sum. -/
def Sum.groups (s : Sum) : List (List Token) :=
  (leaf s.sign ++ s.first.tokens) :: s.rest.map Addend.tokens

/-- The tokens of each term of a statement. -/
def Statement.groups (st : Statement) : List (List Token) := st.sum?.elim [] Sum.groups

theorem Statement.flatten_groups (st : Statement) : st.groups.flatten = sumTokens st.sum? := by
  rw [groups]
  cases st.sum? with
  | none => rfl
  | some s => simp [Sum.groups, sumTokens, Sum.tokens, List.flatMap_def]

theorem Statement.ne_nil_of_mem_groups {st : Statement} {g : List Token} (h : g ∈ st.groups) :
    g ≠ [] := by
  rw [groups] at h
  cases hsum : st.sum? with
  | none => simp [hsum] at h
  | some s =>
    rw [hsum] at h
    rcases List.mem_cons.mp h with rfl | h
    · obtain ⟨t, rest, hf, _⟩ := s.first.tokens_eq_cons
      simp [hf]
    · obtain ⟨a, _, rfl⟩ := List.mem_map.mp h
      obtain ⟨t, rest, ha, _⟩ := a.tokens_eq_cons
      simp [ha]

/-- The span of a term reaches over its tokens. -/
theorem Statement.map_span_terms (st : Statement) :
    (st.meaning : LinProg.Statement K).terms.map Term.span = st.groups.map extent := by
  have haddend (a : Addend) : (a.term : Term K).span = extent a.tokens := by
    cases a <;> rfl
  rw [meaning_terms, groups]
  cases st.sum? with
  | none => rfl
  | some s => simp [sumTerms, Sum.terms, Sum.groups, haddend, termOf]

/-- A term of a statement reaches over some of its tokens. -/
theorem Statement.exists_group {st : Statement} {t : Term K}
    (ht : t ∈ (st.meaning : LinProg.Statement K).terms) :
    ∃ g, g ≠ [] ∧ g.Sublist st.tokens ∧ t.span = extent g := by
  have hspan : t.span ∈ st.groups.map extent := by
    rw [← st.map_span_terms (K := K)]
    exact List.mem_map_of_mem ht
  obtain ⟨g, hg, hextent⟩ := List.mem_map.mp hspan
  have hflatten := List.sublist_flatten_of_mem hg
  rw [st.flatten_groups] at hflatten
  exact ⟨g, ne_nil_of_mem_groups hg, hflatten.trans st.sumTokens_sublist, hextent.symm⟩

theorem Statement.meaning_span (st : Statement) :
    (st.meaning : LinProg.Statement K).span = extent st.tokens := by
  cases st <;> rfl

/-- The spans of a model that is read lie in its text. -/
theorem meaning_liesIn {text : List Char} {m : Model} (hm : m.tokens = Token.significant text)
    {s : LinProg.Statement K} (hs : s ∈ (m.meaning : LinProg.Model K).statements) :
    s.span.LiesIn text ∧ ∀ t ∈ s.terms, t.span.LiesIn text := by
  obtain ⟨st, hst, rfl⟩ := List.mem_map.mp hs
  have htokens : st.tokens.Sublist (Token.scan 0 text) := by
    have h := (Statement.tokens_infix hst).sublist
    rw [hm] at h
    exact h.trans List.filter_sublist
  constructor
  · rw [st.meaning_span]
    exact extent_liesIn htokens st.tokens_ne_nil
  · intro t ht
    obtain ⟨tokens, hne, hsublist, hspan⟩ := Statement.exists_group ht
    rw [hspan]
    exact extent_liesIn (hsublist.trans htokens) hne

end Grammar

namespace Model
variable {K : Type}

/-- A fault of a model is one of a statement or a term, or the model has no statements. -/
theorem compile_error_span [Scalar K] {m : Model K} {e : CompileError} (h : m.compile = .error e) :
    e.span = ⟨0, 0⟩ ∨ ∃ s ∈ m.statements, e.span = s.span ∨ ∃ t ∈ s.terms, e.span = t.span := by
  cases blames_of_compile h with
  | nothing => exact .inl rfl
  | @statement before after s e hsplit _ hfault =>
    refine .inr ⟨s, by simp [hsplit], ?_⟩
    cases hfault with
    | @constant o _ _ t hterms => exact .inr ⟨t, by simp [Statement.terms, hterms], rfl⟩
    | _ => exact .inl rfl

end Model

/-- A fault of a text is found at the next token behind some that begin a model, if there is one. -/
theorem Model.ofText?_faulty {K : Type} [Scalar K] {text : List Char} {e : ReadError}
    (h : (Model.ofText? text : Except ReadError (Model K)) = .error e) :
    Grammar.Faulty (Read.statements (K := K)) Grammar.Model.tokens (Token.significant text) e := by
  unfold Model.ofText? at h
  cases hread : Read.statements (K := K) (Token.significant text) with
  | error fault =>
    simp only [hread, Except.map] at h
    cases h
    exact Grammar.statements_faulty (Grammar.legible_significant text) hread
  | ok sts => simp [hread, Except.map] at h

theorem ReadError.span_liesIn {K : Type} [Scalar K] {text : List Char} {e : ReadError} {s : Span}
    (h : (Model.ofText? text : Except ReadError (Model K)) = .error e) (hs : e.span? = some s) :
    s.LiesIn text := by
  obtain ⟨before, rest, expected, htokens, rfl, _⟩ := Model.ofText?_faulty h
  cases rest with
  | nil => cases hs
  | cons t rest =>
    cases hs
    have ht : t ∈ Token.significant text := by simp [htokens]
    exact (Token.standsIn_of_mem_scan (List.mem_filter.mp ht).1).liesIn

/-- Every place that is shown for a fault of a text lies in the text. -/
theorem ModelError.span_liesIn {K : Type} [Scalar K] {text : List Char} {e : ModelError} {s : Span}
    (h : (Problem.ofText? text : Except ModelError (Problem K)) = .error e)
    (hs : e.span? = some s) : s.LiesIn text := by
  unfold Problem.ofText? at h
  split at h
  · rename_i fault hread
    cases h
    exact ReadError.span_liesIn hread hs
  · rename_i m hread
    split at h
    · rename_i fault hcompile
      cases h
      have hfault : fault.span = s := Option.some.inj hs
      obtain ⟨d, hd, hm⟩ := Grammar.exists_meaning hread
      rw [← hfault]
      rcases Model.compile_error_span hcompile with hspan | ⟨st, hst, hspan⟩
      · rw [hspan]
        exact Span.liesIn_zero text
      · rw [hm] at hst
        obtain ⟨hlies, hterms⟩ := Grammar.meaning_liesIn hd hst
        rcases hspan with hspan | ⟨t, ht, hspan⟩
        · rwa [hspan]
        · rw [hspan]
          exact hterms t ht
    · cases h

end LinProg
