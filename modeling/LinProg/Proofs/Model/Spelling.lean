import LinProg.Proofs.Model.Layout
import LinProg.Proofs.Model.Lossless

/-!
# Texts written word by word

A text that is put together from numerals, names, and symbols is read as these words, if what stands
behind each of them does not go on it. The problem of a text depends on its words alone, and every
name in it is one that can be written again.
-/
namespace LinProg

namespace Text

/-- The codes of the digits are below those of the letters. -/
theorem not_isAlpha_of_code_lt {c : Char} (h : c.toNat < 65) : c.isAlpha = false := by
  have hupper : c.isUpper = false := decide_eq_false fun hletter => by
    have hA : 65 ≤ c.toNat := UInt32.le_iff_toNat_le.mp hletter.1
    omega
  have hlower : c.isLower = false := Bool.and_eq_false_iff.mpr <| .inl <|
    decide_eq_false fun hletter => by
      have ha : 97 ≤ c.toNat := UInt32.le_iff_toNat_le.mp hletter
      omega
  exact Bool.or_eq_false_iff.mpr ⟨hupper, hlower⟩

theorem not_startsWord_of_isDigit {c : Char} (h : c.isDigit = true) : startsWord c = false := by
  have hnine : c.val ≤ '9'.val := of_decide_eq_true (Bool.and_eq_true_iff.mp h).2
  have hcode : c.toNat ≤ 57 := UInt32.le_iff_toNat_le.mp hnine
  have hmark : c ≠ '_' := ne_of_test h rfl
  have hletter : isLetter c = false := by
    rw [isLetter, if_pos (by omega), not_isAlpha_of_code_lt (by omega)]
  simp [startsWord, hletter, hmark]

theorem isDigit_of_startsWord {c : Char} (h : startsWord c = true) : c.isDigit = false := by
  cases hd : c.isDigit with
  | false => rfl
  | true =>
    rw [not_startsWord_of_isDigit hd] at h
    cases h

end Text

/-- The text consists of the words and of gaps. None of the words is a comment. -/
inductive Spells : List Char → List (Token.Kind × List Char) → Prop
  | nil : Spells [] []
  | gap {c : Char} {text : List Char} {words : List (Token.Kind × List Char)} :
      Token.isGap c = true → Spells text words → Spells (c :: text) words
  | word {c : Char} {body rest : List Char} {kind : Token.Kind}
      {words : List (Token.Kind × List Char)} :
      Token.isGap c = false → kind ≠ .comment →
      Lexeme.ofChars c (body ++ rest) = ⟨kind, body, rest⟩ → Spells rest words →
      Spells (c :: (body ++ rest)) ((kind, c :: body) :: words)

theorem Spells.map_word {text : List Char} {words : List (Token.Kind × List Char)}
    (h : Spells text words) (offset : ℕ) :
    ((Token.scan offset text).filter (·.kind != .comment)).map Token.word = words := by
  induction h generalizing offset with
  | nil => simp [Token.scan]
  | gap hgap _ ih => rw [Token.scan_gap hgap, ih]
  | word hgap hkind hlexeme _ ih =>
    rw [Token.scan_cons hgap, hlexeme, List.filter_cons_of_pos (by simpa using hkind),
      List.map_cons, ih]
    rfl

theorem Token.not_isGap {test : Char → Bool} {c : Char} (hc : test c = true)
    (htest : [' ', '\t', '\r'].any test = false) : isGap c = false := by
  rw [Bool.eq_false_iff]
  intro hgap
  have hmem : c ∈ [' ', '\t', '\r'] := by simpa [isGap, or_assoc] using hgap
  exact List.any_eq_false.mp htest c hmem hc

/-- A name of a variable or a constraint. -/
def IsName (text : List Char) : Prop := IsWord text ∧ Lexeme.wordKind text = .ident

namespace Lexeme

theorem numberBody_pointed {digits part more : List Char} (h : ∀ c ∈ digits, c.isDigit = true)
    (hpart : ∀ c ∈ part, c.isDigit = true)
    (hmore : ∀ c ∈ more.head?, c.isDigit = false ∧ c ≠ '.') :
    numberBody (digits ++ pointed part ++ more) = (digits ++ pointed part, more) := by
  have hstop : more.takeWhile Char.isDigit = [] ∧ more.dropWhile Char.isDigit = more := by
    cases more with
    | nil => simp
    | cons c more => simp [(hmore c rfl).1]
  rw [numberBody_eq, List.append_assoc, List.takeWhile_append_of_pos h,
    List.dropWhile_append_of_pos h]
  cases part with
  | nil =>
    have hnot : ¬ BeginsFraction more := by
      rintro ⟨d, rest, rfl, _⟩
      exact (hmore '.' rfl).2 rfl
    simp [pointed, hstop, fraction_of_not hnot]
  | cons d part =>
    have hd := hpart d List.mem_cons_self
    have htail (c : Char) (hc : c ∈ part) := hpart c (List.mem_cons_of_mem d hc)
    have hwhole : List.takeWhile Char.isDigit (pointed (d :: part) ++ more) = [] ∧
        List.dropWhile Char.isDigit (pointed (d :: part) ++ more) = '.' :: d :: (part ++ more) :=
      ⟨rfl, rfl⟩
    rw [hwhole.1, hwhole.2, fraction_cons_cons hd, List.takeWhile_append_of_pos htail,
      List.dropWhile_append_of_pos htail, hstop.1, hstop.2]
    simp [pointed]

theorem ofChars_of_digit {d : Char} (hd : d.isDigit = true) (rest : List Char) :
    ofChars d rest = ⟨.number, (numberBody rest).1, (numberBody rest).2⟩ := by
  have hne (mark : Char) (h : mark.isDigit = false) : d ≠ mark := ne_of_test hd h
  simp [ofChars, hne '/' rfl, hne '-' rfl, hne '<' rfl, hne '>' rfl, hne '=' rfl, hd]

theorem ofChars_of_startsWord {c : Char} (hc : Text.startsWord c = true) (rest : List Char) :
    ofChars c rest = ⟨wordKind (c :: rest.takeWhile Text.inWord), rest.takeWhile Text.inWord,
      rest.dropWhile Text.inWord⟩ := by
  have hne (mark : Char) (h : Text.startsWord mark = false) : c ≠ mark := ne_of_test hc h
  simp [ofChars, hne '/' rfl, hne '-' rfl, hne '<' rfl, hne '>' rfl, hne '=' rfl,
    Text.isDigit_of_startsWord hc, hc]

end Lexeme

namespace Spells
variable {text more : List Char} {words : List (Token.Kind × List Char)}

/-- A numeral ends before a character that is neither a digit nor a point. -/
theorem number (h : IsDecimal text) (hmore : ∀ c ∈ more.head?, c.isDigit = false ∧ c ≠ '.')
    (hwords : Spells more words) : Spells (text ++ more) ((.number, text) :: words) := by
  obtain ⟨d, digits, part, hd, hdigits, hpart, rfl⟩ := h.exists_pointed
  refine .word ?_ (by simp) ?_ hwords
  · exact Token.not_isGap hd (by decide)
  · rw [Lexeme.ofChars_of_digit hd, Lexeme.numberBody_pointed hdigits hpart hmore]

theorem negative (h : IsDecimal text) (hmore : ∀ c ∈ more.head?, c.isDigit = false ∧ c ≠ '.')
    (hwords : Spells more words) :
    Spells ('-' :: (text ++ more)) ((.number, '-' :: text) :: words) := by
  obtain ⟨d, digits, part, hd, hdigits, hpart, rfl⟩ := h.exists_pointed
  refine .word rfl (by simp) ?_ hwords
  have hall : ∀ c ∈ d :: digits, c.isDigit = true := by
    simpa [hd] using hdigits
  have hbody := Lexeme.numberBody_pointed hall hpart hmore
  simp only [List.cons_append, List.append_assoc] at hbody
  simp [Lexeme.ofChars, Lexeme.ofMinus, hd, hbody]

/-- A word ends before a character that no word holds. -/
theorem keyword (h : IsWord text) (hmore : ∀ c ∈ more.head?, Text.inWord c = false)
    (hwords : Spells more words) :
    Spells (text ++ more) ((Lexeme.wordKind text, text) :: words) := by
  obtain ⟨⟨c, hhead, hc⟩, hall⟩ := h
  obtain ⟨body, rfl⟩ := List.head?_eq_some_iff.mp hhead
  have hbody (d : Char) (hd : d ∈ body) := hall d (List.mem_cons_of_mem c hd)
  have htake : (body ++ more).takeWhile Text.inWord = body := by
    rw [takeWhile_append_of_head fun _ => hmore, List.takeWhile_eq_self_iff.mpr hbody]
  have hdrop : (body ++ more).dropWhile Text.inWord = more := by
    rw [dropWhile_append_of_head fun _ => hmore, List.dropWhile_eq_nil_iff.mpr hbody,
      List.nil_append]
  refine .word (Token.not_isGap hc (by decide)) ?_ ?_ hwords
  · intro hkind
    have hword := Lexeme.wordKind_isWord (c :: body)
    rw [hkind] at hword
    cases hword
  · rw [Lexeme.ofChars_of_startsWord hc, htake, hdrop]

theorem name (h : IsName text) (hmore : ∀ c ∈ more.head?, Text.inWord c = false)
    (hwords : Spells more words) : Spells (text ++ more) ((.ident, text) :: words) := by
  have hword := keyword h.1 hmore hwords
  rwa [h.2] at hword

/-- A mark that is a word by itself before what follows. -/
theorem mark (c : Char) (kind : Token.Kind) (hgap : Token.isGap c = false)
    (hkind : kind ≠ .comment) (h : Lexeme.ofChars c more = ⟨kind, [], more⟩)
    (hwords : Spells more words) : Spells (c :: more) ((kind, [c]) :: words) :=
  @Spells.word c [] more kind words hgap hkind h hwords

theorem space (hwords : Spells more words) : Spells (' ' :: more) words := .gap rfl hwords

end Spells

/-- Neither a digit nor a point stands where a break does. -/
theorem Breaks.ends_number {more : List Char} (h : Breaks more) :
    ∀ c ∈ more.head?, c.isDigit = false ∧ c ≠ '.' := by
  have hdigit : ∀ c ∈ more.head?, c.isDigit = false := h.head (by decide)
  have hpoint : ∀ c ∈ more.head?, (c == '.') = false := h.head (by decide)
  exact fun c hc => ⟨hdigit c hc, by simpa using hpoint c hc⟩

/-- A name begins with neither a digit nor a point. -/
theorem IsName.ends_number {text : List Char} (h : IsName text) (more : List Char) :
    ∀ c ∈ (text ++ more).head?, c.isDigit = false ∧ c ≠ '.' := by
  obtain ⟨⟨⟨c, hhead, hc⟩, _⟩, _⟩ := h
  obtain ⟨body, rfl⟩ := List.head?_eq_some_iff.mp hhead
  intro d hd
  obtain rfl : c = d := by simpa using hd
  exact ⟨Text.isDigit_of_startsWord hc, ne_of_test hc rfl⟩

namespace Problem
variable {K : Type} [Scalar K]

/-- A text with the words of a derivation states the problem that the derivation means. -/
theorem ofText?_of_words {text : List Char} {d : Grammar.Model} {p : Problem K}
    (hwords : (Token.significant text).map Token.word = d.tokens.map Token.word)
    (hcompile : (d.meaning : Model K).compile = .ok p) : ofText? text = .ok p := by
  have hlegible : Grammar.Legible d.tokens := by
    intro t ht hkind
    have hmem : t.word ∈ (Token.significant text).map Token.word :=
      hwords ▸ List.mem_map_of_mem ht
    obtain ⟨u, hu, heq⟩ := List.mem_map.mp hmem
    obtain ⟨hukind, hutext⟩ := Prod.mk.inj heq
    rw [← hutext]
    exact Token.hasValue_of_mem_significant hu (hukind.trans hkind)
  have hread := Grammar.statements_tokens (K := K) d hlegible
  have hmoved := Read.statements_move (K := K) (fun _ => 0) (fun _ => 0) d.tokens
  rw [Token.map_move_zero, ← hwords, ← Token.map_move_zero, Read.statements_move, hread] at hmoved
  cases hsts : Read.statements (K := K) (Token.significant text) with
  | error e => simp [hsts, Except.map, Except.mapError] at hmoved
  | ok sts =>
    have hsame : (⟨sts⟩ : Model K).move (fun _ => 0) (fun _ => 0) =
        d.meaning.move (fun _ => 0) fun _ => 0 := by
      simpa [hsts, Except.map, Except.mapError, Model.move, Grammar.Model.meaning] using hmoved
    have hmodel : (Model.ofText? text : Except ReadError (Model K)) = .ok ⟨sts⟩ := by
      simp [Model.ofText?, hsts, Except.map]
    have hproblem : (⟨sts⟩ : Model K).compile = .ok p := by
      rwa [← Model.compile_move_eq_ok_iff, hsame, Model.compile_move_eq_ok_iff]
    simp [ofText?, hmodel, hproblem]

end Problem

namespace Grammar
variable {K : Type} [Scalar K]

theorem Factor.exists_name_token {f : Factor} {v : String} (h : f.name? = some v) :
    ∃ t ∈ f.tokens, t.kind = .ident ∧ v.toList = t.text := by
  have hname (name : Name) (h : some (String.ofList name.val.text) = some v) :
      name.val.kind = .ident ∧ v.toList = name.val.text := by
    cases h
    exact ⟨by simpa using name.property, String.toList_ofList⟩
  cases f with
  | constant number => cases h
  | product number star name => exact ⟨name.val, by simp [tokens], hname name h⟩
  | lone name => exact ⟨name.val, by simp [tokens], hname name h⟩

theorem Sum.exists_name_token {s : Sum} {t : Term K} (ht : t ∈ s.terms) {v : String}
    (h : t.name = some v) : ∃ u ∈ s.tokens, u.kind = .ident ∧ v.toList = u.text := by
  rcases List.mem_cons.mp ht with rfl | ht
  · obtain ⟨u, hu, hname⟩ := Factor.exists_name_token h
    exact ⟨u, by simp [tokens, hu], hname⟩
  · obtain ⟨a, ha, rfl⟩ := List.mem_map.mp ht
    have hsublist : a.tokens.Sublist s.tokens :=
      (infix_flatMap_of_mem Addend.tokens ha).sublist.trans (List.sublist_append_right ..)
    cases a with
    | signed sign f =>
      obtain ⟨u, hu, hname⟩ := Factor.exists_name_token h
      exact ⟨u, hsublist.subset (List.mem_cons_of_mem _ hu), hname⟩
    | glued f _ =>
      obtain ⟨u, hu, hname⟩ := Factor.exists_name_token h
      exact ⟨u, hsublist.subset hu, hname⟩

/-- The names in a statement are the texts of its tokens. -/
theorem Statement.exists_name_token {st : Statement} {v : String}
    (h : v ∈ (st.meaning : LinProg.Statement K).terms.filterMap Term.name) :
    ∃ u ∈ st.tokens, u.kind = .ident ∧ v.toList = u.text := by
  obtain ⟨t, ht, hv⟩ := List.mem_filterMap.mp h
  have hsublist := st.sumTokens_sublist
  rw [st.meaning_terms] at ht
  cases hsum : st.sum? with
  | none => simp [hsum, sumTerms] at ht
  | some sum =>
    rw [hsum] at ht hsublist
    obtain ⟨u, hu, hname⟩ := Sum.exists_name_token ht hv
    exact ⟨u, hsublist.subset hu, hname⟩

theorem Statement.exists_label_token {st : Statement} {c : ConstraintStatement K} {v : String}
    (hst : (st.meaning : LinProg.Statement K) = .constraint c) (h : c.name = some v) :
    ∃ u ∈ st.tokens, u.kind = .ident ∧ v.toList = u.text := by
  cases st with
  | objective keyword colon sum => cases hst
  | constraint label sum relation sign rhs =>
    cases hst
    obtain ⟨⟨name, colon⟩, rfl, rfl⟩ := Option.map_eq_some_iff.mp h
    exact ⟨name.val, by simp [tokens, labelTokens], by simpa using name.property,
      String.toList_ofList⟩

end Grammar

theorem Token.isName_of_mem_significant {text : List Char} {t : Token} (ht : t ∈ significant text)
    (hkind : t.kind = .ident) : IsName t.text := by
  obtain ⟨_, c, rest, _, _, rfl⟩ := exists_lexeme_of_mem_scan (List.mem_filter.mp ht).1
  have hword : (Lexeme.ofChars c rest).kind.isWord = true := by
    rw [show (Lexeme.ofChars c rest).kind = .ident from hkind]
    rfl
  refine ⟨(Lexeme.isWord_ofChars hword).1, ?_⟩
  have heq := (Lexeme.ofChars_of_isWord hword).2
  rw [heq] at hkind ⊢
  exact hkind

theorem Lexeme.wordKind_eq_ident {c : Char} (hc : c.toLower ≠ 'm') (rest : List Char) :
    wordKind (c :: rest) = .ident := by
  have hne (keyword : String) (hm : keyword.toList.head? = some 'm') :
      String.ofList ((c :: rest).map Char.toLower) ≠ keyword := by
    rintro rfl
    rw [String.toList_ofList] at hm
    exact hc (Option.some.inj hm)
  unfold wordKind
  split
  all_goals first
    | rfl
    | exact absurd ‹_› (hne _ rfl)

theorem isName_numbered (k : ℕ) : IsName (numbered "c" k).toList := by
  have htext : (numbered "c" k).toList = 'c' :: Nat.toDigits 10 k := by
    simp [numbered, String.toList_append]
  rw [htext]
  refine ⟨Lexeme.isWord_cons rfl fun d hd => ?_, Lexeme.wordKind_eq_ident (by decide) _⟩
  have hdigit := (isDigitRun_toDigits k).2 d hd
  exact Text.inWord_of_isAlphanum (by simp [Char.isAlphanum, hdigit])

namespace Model
variable {K : Type} [Scalar K]

/-- All names of a model are read from its text. -/
theorem isName_of_ofText? {text : List Char} {m : Model K} (h : ofText? text = .ok m) :
    (∀ v ∈ m.occurrences, IsName v.toList) ∧
      ∀ c, .constraint c ∈ m.statements → ∀ v, c.name = some v → IsName v.toList := by
  obtain ⟨d, hd, hm⟩ := Grammar.exists_meaning h
  have hname {st : Grammar.Statement} (hst : st ∈ d.statements) {u : Token} (hu : u ∈ st.tokens)
      (hkind : u.kind = .ident) : IsName u.text := by
    have hmem := (Grammar.Statement.tokens_infix hst).subset hu
    exact Token.isName_of_mem_significant (hd ▸ hmem) hkind
  subst hm
  constructor
  · intro v hv
    obtain ⟨s, hs, hvs⟩ := List.mem_flatMap.mp hv
    obtain ⟨st, hst, rfl⟩ := List.mem_map.mp hs
    obtain ⟨u, hu, hkind, hvu⟩ := Grammar.Statement.exists_name_token hvs
    rw [hvu]
    exact hname hst hu hkind
  · intro c hc v hv
    obtain ⟨st, hst, hmeaning⟩ := List.mem_map.mp hc
    obtain ⟨u, hu, hkind, hvu⟩ := Grammar.Statement.exists_label_token hmeaning hv
    rw [hvu]
    exact hname hst hu hkind

omit [Scalar K] in
/-- A name that a constraint gets is its label or a numbered one. -/
theorem mem_namesFrom {number : ℕ} {declared : List (ConstraintStatement K)} {v : String}
    (h : v ∈ namesFrom number declared) :
    ∃ c ∈ declared, c.name = some v ∨ ∃ k, v = numbered "c" k := by
  obtain ⟨i, hi, rfl⟩ := List.mem_mapIdx.mp h
  refine ⟨declared[i], List.getElem_mem hi, ?_⟩
  cases hname : declared[i].name with
  | some v => exact .inl (by simp [ConstraintStatement.nameAs, hname])
  | none => exact .inr ⟨number + i, by simp [ConstraintStatement.nameAs, hname]⟩

end Model

namespace Problem
variable {K : Type} [Scalar K]

/-- The names of a problem are such that it can be written as a model. -/
structure Nameable (p : Problem K) : Prop where
  nodup_names : p.names.Nodup
  isName : ∀ v ∈ p.names, IsName v.toList
  nodup_constraints : (p.constraints.map Constraint.name).Nodup
  isName_constraint : ∀ v ∈ p.constraints.map Constraint.name, IsName v.toList
  length_objective : p.objective.coefficients.length = p.names.length

theorem nameable_of_ofText? {text : List Char} {p : Problem K} (h : ofText? text = .ok p) :
    p.Nameable := by
  unfold ofText? at h
  split at h
  · cases h
  · rename_i m hm
    split at h
    · cases h
    · rename_i q hcompile
      cases h
      obtain ⟨hoccurs, hlabels⟩ := Model.isName_of_ofText? hm
      have hlists := Model.listsVariables hcompile
      obtain ⟨o, declared, hstates, rfl⟩ := Model.exists_states_of_compile hcompile
      have hstatements : m.statements = .objective o :: declared.map .constraint := hstates.declares
      have hconstraints : (Model.problemOf o (Model.namedFrom 1 declared)).constraints.map
          Constraint.name = Model.namesFrom 1 declared := by
        rw [← Model.map_fst_namedFrom, Model.problemOf, List.map_map]
        rfl
      refine ⟨hlists.inOrder.nodup, fun v hv => hoccurs v ((hlists.mem_names v).mp hv), ?_, ?_,
        hlists.length_objective⟩
      · rw [hconstraints]
        exact hstates.nodup_names
      · rw [hconstraints]
        intro v hv
        obtain ⟨c, hc, hlabel | ⟨k, rfl⟩⟩ := Model.mem_namesFrom hv
        · have hmem : .constraint c ∈ m.statements :=
            hstatements ▸ List.mem_cons_of_mem _ (List.mem_map_of_mem hc)
          exact hlabels c hmem v hlabel
        · exact isName_numbered k

end Problem
end LinProg
