import LinProg.Proofs.Model.Cursor
import LinProg.Proofs.Model.Joining
import LinProg.Proofs.Model.Seams

/-!
# Statements are cut out by their spans

The tokens of a statement stand together, from the first byte of its span to the last, and no token
reaches over either end. So what the span covers has these tokens and no others that matter, and it
reads as the statement alone. The terms of a statement stand in it one behind the other, and so do
the statements in the text.
-/
namespace LinProg

/-- A span that lies in a text cuts it into three parts. -/
theorem Span.LiesIn.exists_cut {s : Span} {text : List Char} (h : s.LiesIn text) :
    ∃ left part right, text = left ++ (part ++ right) ∧
      s = ⟨byteLength left, byteLength left + byteLength part⟩ := by
  obtain ⟨left, rest, hleft, hstart⟩ := h.start_isBoundary
  obtain ⟨upto, right, hright, hstop⟩ := h.stop_isBoundary
  have hbytes : byteLength left ≤ byteLength upto := by
    rw [hstart, hstop]
    exact h.start_le_stop
  obtain ⟨part, rfl⟩ : left <+: upto :=
    List.prefix_of_prefix_length_le ⟨rest, hleft.symm⟩ ⟨right, hright.symm⟩
      (length_le_of_byteLength_le (hleft.symm.trans hright) hbytes)
  refine ⟨left, part, right, by rw [hright, List.append_assoc], ?_⟩
  obtain ⟨start, stop⟩ := s
  rw [byteLength_append] at hstop
  subst hstart hstop
  rfl

namespace Token

/-- Of two tokens one stands behind the other. -/
theorem Ordered.apart {tokens : List Token} (h : Ordered tokens) {t u : Token} (ht : t ∈ tokens)
    (hu : u ∈ tokens) :
    u = t ∨ u.span.stop ≤ t.span.start ∨ t.span.stop ≤ u.span.start := by
  have hbehind := h.pairwise
  exact List.Pairwise.forall_of_forall_of_flip
    (R := fun t u => u = t ∨ u.span.stop ≤ t.span.start ∨ t.span.stop ≤ u.span.start)
    (fun t _ => .inl rfl) (hbehind.imp fun hle => .inr (.inr hle))
    (hbehind.imp fun hle => .inr (.inl hle)) ht hu

/-- Whether a token lies in a span. -/
def within (s : Span) (t : Token) : Bool := s.start ≤ t.span.start && t.span.stop ≤ s.stop

theorem filter_within_eq_nil {s : Span} {tokens : List Token}
    (h : ∀ t ∈ tokens, t.span.start < s.start ∨ s.stop < t.span.stop) :
    tokens.filter (within s) = [] := by
  rw [List.filter_eq_nil_iff]
  intro t ht
  have hout := h t ht
  simp only [within, Bool.and_eq_true, decide_eq_true_eq, not_and]
  omega

theorem filter_within_eq_self {s : Span} {tokens : List Token}
    (h : ∀ t ∈ tokens, s.start ≤ t.span.start ∧ t.span.stop ≤ s.stop) :
    tokens.filter (within s) = tokens := by
  rw [List.filter_eq_self]
  intro t ht
  simpa [within] using h t ht

/-- The tokens of a part of a text that no token reaches out of are those of the part alone, moved
to its place. -/
theorem filter_within_scan {left part right : List Char} {t u : Token}
    (ht : t ∈ scan 0 (left ++ (part ++ right))) (hu : u ∈ scan 0 (left ++ (part ++ right)))
    (hstart : t.span.start = byteLength left)
    (hstop : u.span.stop = byteLength left + byteLength part) :
    (scan 0 (left ++ (part ++ right))).filter
        (within ⟨byteLength left, byteLength left + byteLength part⟩) =
      (scan 0 part).map (move (· + byteLength left) (· + byteLength left)) := by
  have hordered := ordered_scan 0 (left ++ (part ++ right))
  have hleft : IsSeam 0 left (part ++ right) := by
    intro v hv
    have hlt := hordered.start_lt_stop t ht
    rcases hordered.apart ht hv with rfl | hapart
    · omega
    · omega
  have hscan := scan_append_of_isSeam hleft
  rw [Nat.zero_add] at hscan
  have hright : IsSeam (byteLength left) part right := by
    intro v hv
    have hmem : v ∈ scan 0 (left ++ (part ++ right)) := by
      rw [hscan]
      exact List.mem_append_right _ hv
    have hlt := hordered.start_lt_stop u hu
    rcases hordered.apart hu hmem with rfl | hapart
    · omega
    · omega
  have hmove : scan (byteLength left) part =
      (scan 0 part).map (move (· + byteLength left) (· + byteLength left)) := by
    rw [← scan_move, Nat.zero_add]
  rw [hscan, scan_append_of_isSeam hright, ← hmove, List.filter_append, List.filter_append,
    filter_within_eq_nil, filter_within_eq_self, filter_within_eq_nil, List.nil_append,
    List.append_nil]
  · intro v hv
    have hinside := inside_of_mem_scan hv
    have hlt := start_lt_stop_of_mem_scan hv
    simp only
    omega
  · intro v hv
    exact inside_of_mem_scan hv
  · intro v hv
    have hinside := inside_of_mem_scan hv
    have hlt := start_lt_stop_of_mem_scan hv
    simp only
    omega

/-- Of ordered tokens, those in the range over some that stand together are these. -/
theorem filter_within_extent {before tokens after : List Token}
    (h : Ordered (before ++ (tokens ++ after))) (hne : tokens ≠ []) :
    (before ++ (tokens ++ after)).filter (within (Grammar.extent tokens)) = tokens := by
  obtain ⟨t, ht, u, hu, hextent⟩ := Grammar.exists_extent hne
  have hbefore := (List.pairwise_append.mp h.pairwise).2.2
  have hrest := h.sublist (List.sublist_append_right ..)
  have hafter := (List.pairwise_append.mp hrest.pairwise).2.2
  have htokens := hrest.sublist (List.sublist_append_left ..)
  rw [List.filter_append, List.filter_append, filter_within_eq_nil,
    filter_within_eq_self fun v hv => Grammar.extent_covers htokens hv, filter_within_eq_nil,
    List.nil_append, List.append_nil]
  · intro v hv
    have hle := hafter u hu v hv
    have hlt := h.start_lt_stop v (by simp [hv])
    rw [hextent]
    exact .inr (hle.trans_lt hlt)
  · intro v hv
    have hle := hbefore v hv t (List.mem_append_left _ ht)
    have hlt := h.start_lt_stop v (List.mem_append_left _ hv)
    rw [hextent]
    exact .inl (hlt.trans_le hle)

/-- Tokens that matter and stand together are those that the range over them has alone, moved to
their place. -/
theorem exists_part {text : List Char} {before tokens after : List Token}
    (h : significant text = before ++ (tokens ++ after)) (hne : tokens ≠ []) :
    ∃ left part right, text = left ++ (part ++ right) ∧
      Grammar.extent tokens = ⟨byteLength left, byteLength left + byteLength part⟩ ∧
      (significant part).map (move (· + byteLength left) (· + byteLength left)) = tokens := by
  have hordered := ordered_significant text
  have hsub : tokens.Sublist (scan 0 text) := by
    have hall := (List.sublist_append_left tokens after).trans
      (List.sublist_append_right before (tokens ++ after))
    rw [← h] at hall
    exact hall.trans List.filter_sublist
  obtain ⟨left, part, right, rfl, hspan⟩ := (Grammar.extent_liesIn hsub hne).exists_cut
  obtain ⟨t, ht, u, hu, hextent⟩ := Grammar.exists_extent hne
  have hstart : t.span.start = byteLength left := congrArg Span.start (hextent.symm.trans hspan)
  have hstop : u.span.stop = byteLength left + byteLength part :=
    congrArg Span.stop (hextent.symm.trans hspan)
  refine ⟨left, part, right, rfl, hspan, ?_⟩
  have hscan := filter_within_scan (hsub.subset ht) (hsub.subset hu) hstart hstop
  have htokens : (significant (left ++ (part ++ right))).filter
      (within (Grammar.extent tokens)) = tokens := by
    rw [h] at hordered ⊢
    exact filter_within_extent hordered hne
  rw [significant, List.filter_comm, hspan, hscan, List.filter_map] at htokens
  exact htokens

end Token

namespace Grammar

/-- The ranges over groups of tokens stand one behind the other like the tokens. -/
theorem pairwise_extent {groups : List (List Token)} (h : Token.Ordered groups.flatten)
    (hne : ∀ g ∈ groups, g ≠ []) :
    (groups.map extent).Pairwise fun s t => s.stop ≤ t.start := by
  rw [List.pairwise_map]
  refine (List.pairwise_flatten.mp h.pairwise).2.imp_of_mem fun {g g'} hg hg' hle => ?_
  obtain ⟨_, _, u, hu, hextent⟩ := exists_extent (hne g hg)
  obtain ⟨t, ht, _, _, hextent'⟩ := exists_extent (hne g' hg')
  rw [hextent, hextent']
  exact hle u hu t ht

/-- The tokens of the statements are tokens of the model, in order. -/
theorem Model.flatMap_tokens_sublist (m : Model) :
    (m.statements.flatMap Statement.tokens).Sublist m.tokens := by
  have hrest (rest : List Successor) : ((rest.map Successor.statement).flatMap
      Statement.tokens).Sublist (rest.flatMap Successor.tokens) := by
    induction rest with
    | nil => exact List.Sublist.refl _
    | cons next rest ih =>
      have hnext : next.statement.tokens.Sublist next.tokens :=
        (List.sublist_append_right ..).trans (List.sublist_cons_self ..)
      exact hnext.append ih
  obtain ⟨leading, body⟩ := m
  cases body with
  | none => exact List.nil_sublist _
  | some b =>
    have hbody := (List.Sublist.refl b.first.tokens).append (hrest b.rest)
    exact (hbody.trans (List.sublist_append_left ..)).trans (List.sublist_append_right ..)

end Grammar

variable {K : Type}

theorem Statement.move_sub_move_add (count : ℕ) (st : Statement K) :
    (st.move (· + count) (· + count)).move (· - count) (· - count) = st := by
  have hspan (s : Span) : (s.move (· + count) (· + count)).move (· - count) (· - count) = s := by
    simp [Span.move]
  have hterms (terms : List (Term K)) : (terms.map (Term.move (· + count) (· + count))).map
      (Term.move (· - count) (· - count)) = terms := by
    rw [List.map_map]
    refine List.map_id'' (fun t => ?_) terms
    simp only [Function.comp_apply, Term.move, hspan]
  cases st with
  | objective o => simp only [move, ObjectiveStatement.move, hspan, hterms]
  | constraint c => simp only [move, ConstraintStatement.move, hspan, hterms]

variable [Scalar K]

/-- A text whose tokens are those of a statement that stands elsewhere is this statement. -/
theorem Model.ofText?_of_statement {part : List Char} {st : Grammar.Statement} {count : ℕ}
    (h : (Token.significant part).map (Token.move (· + count) (· + count)) = st.tokens)
    (hlegible : Grammar.Legible st.tokens) :
    ofText? part = .ok ⟨[(st.meaning : Statement K).move (· - count) (· - count)]⟩ := by
  have hread : Read.statements st.tokens = .ok [(st.meaning : Statement K)] := by
    have hend : Read.endStatement [] = .ok [] := rfl
    simpa [Grammar.separators] using Grammar.statements_append [] st hlegible
      (Grammar.notNext_nil _) hend (Grammar.statements_of_separators [])
  rw [← h, Read.statements_move] at hread
  cases hpart : Read.statements (K := K) (Token.significant part) with
  | error e => simp [hpart, Except.map, Except.mapError] at hread
  | ok sts =>
    have hmoved : sts.map (Statement.move (· + count) (· + count)) = [st.meaning] := by
      simpa [hpart, Except.map, Except.mapError] using hread
    obtain ⟨alone, rfl, halone⟩ := List.map_eq_singleton_iff.mp hmoved
    rw [ofText?, hpart, ← halone, Statement.move_sub_move_add]
    rfl

/-- A statement that stands in a text, its terms one behind the other, and that is all that can be
read of what its span covers. -/
structure Statement.IsExcerpt (st : Statement K) (text : List Char) : Prop where
  liesIn : st.span.LiesIn text
  start_lt_stop : st.span.start < st.span.stop
  terms_inside : ∀ t ∈ st.terms, t.span.LiesIn text ∧ t.span.start < t.span.stop ∧
    st.span.start ≤ t.span.start ∧ t.span.stop ≤ st.span.stop
  terms_pairwise : st.terms.Pairwise fun t u => t.span.stop ≤ u.span.start
  read_alone : ∃ part, slice? text st.span = some part ∧
    Model.ofText? part = .ok ⟨[st.move (· - st.span.start) (· - st.span.start)]⟩

theorem Grammar.isExcerpt_meaning {text : List Char} {m : Grammar.Model}
    (hm : m.tokens = Token.significant text) {st : Grammar.Statement} (hst : st ∈ m.statements) :
    (st.meaning : LinProg.Statement K).IsExcerpt text := by
  obtain ⟨before, after, htokens⟩ := Statement.tokens_infix hst
  rw [hm, List.append_assoc] at htokens
  have hmem : st.meaning ∈ (m.meaning : LinProg.Model K).statements := List.mem_map_of_mem hst
  obtain ⟨hlies, hterms⟩ := meaning_liesIn hm hmem
  have hsub : st.tokens.Sublist (Token.significant text) :=
    hm ▸ (Statement.tokens_infix hst).sublist
  have hordered := (Token.ordered_significant text).sublist hsub
  have hlegible : Legible st.tokens := fun t ht => legible_significant text t (hsub.subset ht)
  obtain ⟨left, part, right, rfl, hspan, hpart⟩ :=
    Token.exists_part htokens.symm st.tokens_ne_nil
  refine ⟨hlies, ?_, fun t ht => ⟨hterms t ht, ?_⟩, ?_, part, ?_, ?_⟩
  · rw [st.meaning_span]
    exact extent_start_lt_stop hordered st.tokens_ne_nil
  · obtain ⟨g, hg, hgroup, hextent⟩ := Statement.exists_group ht
    obtain ⟨t, ht, u, hu, hends⟩ := exists_extent hg
    have hstart := (extent_covers hordered (hgroup.subset ht)).1
    have hstop := (extent_covers hordered (hgroup.subset hu)).2
    have hlt := extent_start_lt_stop (hordered.sublist hgroup) hg
    rw [hextent, st.meaning_span]
    rw [hends] at hlt ⊢
    exact ⟨hlt, hstart, hstop⟩
  · have hgroups : Token.Ordered st.groups.flatten := by
      rw [st.flatten_groups]
      exact hordered.sublist st.sumTokens_sublist
    have hpairwise := pairwise_extent hgroups fun g => Statement.ne_nil_of_mem_groups
    rw [← st.map_span_terms (K := K)] at hpairwise
    exact List.pairwise_map.mp hpairwise
  · rw [st.meaning_span, hspan]
    exact slice?_append left part right
  · rw [st.meaning_span, hspan]
    exact Model.ofText?_of_statement hpart hlegible

/-- The statements of a text stand in it one behind the other, and what the span of each covers
reads as this statement alone, with its spans moved to the front. -/
theorem Model.ofText?_excerpts {text : List Char} {m : Model K} (h : ofText? text = .ok m) :
    (m.statements.Pairwise fun s t => s.span.stop ≤ t.span.start) ∧
      ∀ st ∈ m.statements, st.IsExcerpt text := by
  obtain ⟨d, hd, rfl⟩ := Grammar.exists_meaning h
  constructor
  · have hsub := d.flatMap_tokens_sublist
    rw [hd] at hsub
    have hordered := (Token.ordered_significant text).sublist hsub
    have hpairwise := Grammar.pairwise_extent hordered fun g hg => by
      obtain ⟨st, _, rfl⟩ := List.mem_map.mp hg
      exact st.tokens_ne_nil
    rw [List.map_map, List.pairwise_map] at hpairwise
    refine List.pairwise_map.mpr (hpairwise.imp fun {s t} hle => ?_)
    rwa [s.meaning_span, t.meaning_span]
  · intro st hst
    obtain ⟨s, hs, rfl⟩ := List.mem_map.mp hst
    exact Grammar.isExcerpt_meaning hd hs

/-- An objective with a remark inside, and a constraint. Three of the characters have two bytes, and
one has three. -/
def remarkedPair : List Char := "max: 2é - /* β */ y\nc: é ≥ -1;".toList

def remarkedPairDerivation : Grammar.Model where
  leading := []
  body := some {
    first := .objective ⟨⟨.max, ⟨0, 3⟩, ['m', 'a', 'x']⟩, by decide⟩
      (some ⟨⟨.colon, ⟨3, 4⟩, [':']⟩, by decide⟩)
      (some {
        sign := none
        first := .product ⟨⟨.number, ⟨5, 6⟩, ['2']⟩, by decide⟩ none
          ⟨⟨.ident, ⟨6, 8⟩, ['é']⟩, by decide⟩
        rest := [.signed ⟨⟨.minus, ⟨9, 10⟩, ['-']⟩, by decide⟩
          (.lone ⟨⟨.ident, ⟨20, 21⟩, ['y']⟩, by decide⟩)] })
    rest := [{
      separator := ⟨⟨.newline, ⟨21, 22⟩, ['\n']⟩, by decide⟩
      others := []
      statement := .constraint
        (some (⟨⟨.ident, ⟨22, 23⟩, ['c']⟩, by decide⟩, ⟨⟨.colon, ⟨23, 24⟩, [':']⟩, by decide⟩))
        (some ⟨none, .lone ⟨⟨.ident, ⟨25, 27⟩, ['é']⟩, by decide⟩, []⟩)
        ⟨⟨.ge, ⟨28, 31⟩, ['≥']⟩, by decide⟩ none
        ⟨⟨.number, ⟨32, 34⟩, ['-', '1']⟩, by decide⟩ }]
    trailing := [⟨⟨.semicolon, ⟨34, 35⟩, [';']⟩, by decide⟩] }

def remarkedPairModel : Model ℚ where
  statements :=
    [.objective ⟨⟨0, 21⟩, .max, [⟨⟨5, 8⟩, 2, some "é"⟩, ⟨⟨9, 21⟩, -1, some "y"⟩]⟩,
      .constraint ⟨⟨22, 34⟩, some "c", [⟨⟨25, 27⟩, 1, some "é"⟩], .ge, -1⟩]

theorem Model.ofText?_remarkedPair : ofText? remarkedPair = .ok remarkedPairModel := by
  have htokens : remarkedPairDerivation.tokens = Token.significant remarkedPair := by
    rw [Token.significant, Token.scan_eq]
    decide +kernel
  have hmeaning : remarkedPairDerivation.meaning = remarkedPairModel := by decide +kernel
  rw [Grammar.ofText?_tokens htokens, hmeaning]

theorem Model.ofText?_excerpts_remarkedPair :
    ofText? remarkedPair = .ok remarkedPairModel ∧
      (remarkedPairModel.statements.Pairwise fun s t => s.span.stop ≤ t.span.start) ∧
      ∃ part, slice? remarkedPair ⟨22, 34⟩ = some part ∧ ofText? part =
        .ok (⟨[.constraint ⟨⟨0, 12⟩, some "c", [⟨⟨3, 5⟩, 1, some "é"⟩], .ge, -1⟩]⟩ : Model ℚ) := by
  have hread := ofText?_remarkedPair
  obtain ⟨horder, hexcerpts⟩ := ofText?_excerpts hread
  have hlast := (hexcerpts _ (List.mem_cons_of_mem _ List.mem_cons_self)).read_alone
  exact ⟨hread, horder, hlast⟩

end LinProg
