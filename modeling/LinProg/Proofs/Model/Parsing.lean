import LinProg.Proofs.Model.Terms

/-!
# Texts are models exactly if their tokens have a derivation

A statement is read with its label, its sum and its right-hand side, each of which is recognised by
the token it begins with. The list of statements is then read by induction, one statement and the
separators before it at a time.
-/
namespace LinProg.Grammar
variable {K : Type} [Scalar K]

theorem label?_append (label : Option (Name × Leaf [.colon])) {rest : List Token}
    (h : NotLabel rest) : Read.label? (labelTokens label ++ rest) = (labelName label, rest) := by
  cases label with
  | some label =>
    simp [labelTokens, labelName, Read.label?, label.1.kind_eq, label.2.kind_eq]
  | none =>
    cases rest with
    | nil => rfl
    | cons t rest =>
      cases rest with
      | nil => rfl
      | cons u rest =>
        have hu := h t u rest rfl
        simpa [labelTokens, labelName, Read.label?] using hu

theorem exists_label (tokens : List Token) : ∃ label,
    tokens = labelTokens label ++ (Read.label? tokens).2 ∧
      (Read.label? tokens).1 = labelName label := by
  unfold Read.label?
  split
  · rename_i t colon rest
    split
    · rename_i h
      exact ⟨some (⟨t, by simp [h.1]⟩, ⟨colon, by simp [h.2]⟩), rfl, rfl⟩
    · exact ⟨none, rfl, rfl⟩
  · exact ⟨none, rfl, rfl⟩

theorem skipColon_append (stop : Nat) (colon : Option (Leaf [.colon])) {rest : List Token}
    (h : NotNext (fun t => t.kind = .colon) rest) :
    Read.skipColon stop (leaf colon ++ rest) = (lastStop stop (leaf colon), rest) := by
  cases colon with
  | some colon => simp [Read.skipColon, colon.kind_eq]
  | none =>
    cases rest with
    | nil => rfl
    | cons t rest =>
      rw [notNext_cons] at h
      simp [Read.skipColon, h]

theorem exists_colon (stop : Nat) (tokens : List Token) : ∃ colon : Option (Leaf [.colon]),
    tokens = leaf colon ++ (Read.skipColon stop tokens).2 ∧
      (Read.skipColon stop tokens).1 = lastStop stop (leaf colon) := by
  unfold Read.skipColon
  split
  · rename_i t rest
    split
    · rename_i h
      exact ⟨some ⟨t, by simp [h]⟩, rfl, rfl⟩
    · exact ⟨none, rfl, rfl⟩
  · exact ⟨none, rfl, rfl⟩

theorem signedNumber_append (sign : Option Sign) (n : Number) (rest : List Token)
    (hlegible : Literal.HasValue n.val.text) :
    Read.signedNumber (leaf sign ++ (n.val :: rest)) =
      .ok ((Read.signed (isMinus sign) (value n.val : K), n.val.span.stop), rest) := by
  have hn : Read.number n.val = .ok (value n.val : K) := number_eq_value hlegible
  cases sign with
  | none => simp [Read.signedNumber, Read.skipSign, n.kind_eq, hn, isMinus]
  | some sign =>
    rcases sign.sign_kind with h | h
    · have hminus : isMinus (some sign) = false := by simp [isMinus, h]
      simp [Read.signedNumber, Read.skipSign, h, n.kind_eq, hn, hminus]
    · have hminus : isMinus (some sign) = true := by simp [isMinus, h]
      simp [Read.signedNumber, Read.skipSign, h, n.kind_eq, hn, hminus]

theorem exists_sign (tokens : List Token) : ∃ sign : Option Sign,
    tokens = leaf sign ++ (Read.skipSign tokens).2 ∧
      (Read.skipSign tokens).1 = isMinus sign := by
  unfold Read.skipSign
  split
  · rename_i t rest
    split
    · rename_i h
      exact ⟨some ⟨t, by simp [h]⟩, rfl, by simp [isMinus, h]⟩
    · split
      · rename_i h
        exact ⟨some ⟨t, by simp [h]⟩, rfl, by simp [isMinus, h]⟩
      · exact ⟨none, rfl, rfl⟩
  · exact ⟨none, rfl, rfl⟩

theorem signedNumber_eq_ok {tokens rest : List Token} {v : K} {stop : Nat}
    (h : Read.signedNumber tokens = .ok ((v, stop), rest)) : ∃ sign, ∃ n : Number,
      tokens = leaf sign ++ (n.val :: rest) ∧
        v = Read.signed (isMinus sign) (value n.val) ∧ stop = n.val.span.stop := by
  obtain ⟨sign, htokens, hminus⟩ := exists_sign tokens
  simp only [Read.signedNumber] at h
  split at h
  · cases h
  · rename_i t left hleft
    split at h
    · rename_i hkind
      split at h
      · cases h
      · rename_i w hw
        cases h
        have hvalue := number_eq_ok hw
        rw [hleft] at htokens
        rw [hminus, hvalue]
        exact ⟨sign, ⟨t, by simp [hkind]⟩, htokens, rfl, rfl⟩
    · cases h

theorem objective_meaning (keyword : Leaf [.max, .min]) (colon : Option (Leaf [.colon]))
    (sum : Option Sum) :
    ((Statement.objective keyword colon sum).meaning : LinProg.Statement K) =
      .objective ⟨⟨keyword.val.span.start,
        Read.termsStop (lastStop keyword.val.span.stop (leaf colon))
          (sumTerms sum : List (Term K))⟩,
        Read.senseOf keyword.val, sumTerms sum⟩ := by
  simp [Statement.meaning, extent_eq, Statement.tokens, Read.nextStart, termsStop_sum, senseOf,
    Read.senseOf]

theorem constraint_meaning (label : Option (Name × Leaf [.colon])) (sum : Option Sum)
    (relation : Leaf [.le, .ge, .eq]) (sign : Option Sign) (rhs : Number) (rest : List Token) :
    ((Statement.constraint label sum relation sign rhs).meaning : LinProg.Statement K) =
      .constraint ⟨⟨Read.nextStart
          ((Statement.constraint label sum relation sign rhs).tokens ++ rest), rhs.val.span.stop⟩,
        labelName label, (sumTerms sum : List (Term K)), relationOf relation,
        Read.signed (isMinus sign) (value rhs.val)⟩ := by
  obtain ⟨t, more, h, _⟩ := (Statement.constraint label sum relation sign rhs).tokens_eq_cons
  have hstop : lastStop 0 (Statement.constraint label sum relation sign rhs).tokens =
      rhs.val.span.stop := by
    simp [Statement.tokens]
  rw [Statement.meaning, extent_eq, hstop, h]
  rfl

theorem relation?_kind (relation : Leaf [.le, .ge, .eq]) :
    Read.relation? relation.val.kind = some (relationOf relation) := by
  rcases relation.relation_kind with h | h | h <;> simp [Read.relation?, relationOf, h]

theorem exists_relation {t : Token} {relation : Relation}
    (h : Read.relation? t.kind = some relation) :
    ∃ leaf : Leaf [.le, .ge, .eq], leaf.val = t ∧ relationOf leaf = relation := by
  unfold Read.relation? at h
  split at h
  · rename_i hkind
    cases h
    exact ⟨⟨t, by simp [hkind]⟩, rfl, by simp [relationOf, hkind]⟩
  · rename_i hkind
    cases h
    exact ⟨⟨t, by simp [hkind]⟩, rfl, by simp [relationOf, hkind]⟩
  · rename_i hkind
    cases h
    exact ⟨⟨t, by simp [hkind]⟩, rfl, by simp [relationOf, hkind]⟩
  · cases h

/-- The reader of statements on a list of tokens that is not empty. -/
def readStatement : List Token → Except ReadError (LinProg.Statement K × List Token)
  | [] => .error .unexpectedEnd
  | t :: rest => Read.statement t rest

theorem statement_append (st : Statement) {rest : List Token} (hlegible : Legible st.tokens)
    (hrest : Statement.Ends rest) :
    readStatement (st.tokens ++ rest) = .ok ((st.meaning : LinProg.Statement K), rest) := by
  cases st with
  | objective keyword colon sum =>
    have hparts : Legible ([keyword.val] ++ (leaf colon ++ sumTokens sum)) := hlegible
    have hcolon := skipColon_append keyword.val.span.stop colon (Statement.notNext_colon sum hrest)
    have hsum : Read.terms true (sumTokens sum ++ rest) =
        .ok ((sumTerms sum : List (Term K)), rest) :=
      sum_append sum hparts.right.right (Statement.notNext_of_ends hrest)
    have hread : Read.objective keyword.val (leaf colon ++ (sumTokens sum ++ rest)) =
        .ok (((Statement.objective keyword colon sum).meaning : LinProg.Statement K), rest) := by
      simp only [Read.objective, hcolon, hsum]
      rw [objective_meaning]
    simpa [readStatement, Statement.tokens, Read.statement, keyword.keyword_kind] using hread
  | constraint label sum relation sign rhs =>
    have hparts : Legible (labelTokens label ++ (sumTokens sum ++
        ([relation.val] ++ (leaf sign ++ [rhs.val])))) := by
      simpa [Statement.tokens] using hlegible
    have hlabel := label?_append label (notLabel_sum sum relation (leaf sign ++ (rhs.val :: rest)))
    have hsum :
        Read.terms true (sumTokens sum ++ relation.val :: (leaf sign ++ (rhs.val :: rest))) =
        .ok ((sumTerms sum : List (Term K)), relation.val :: (leaf sign ++ (rhs.val :: rest))) :=
      sum_append sum hparts.right.left (notNext_relation relation _)
    have hrhs := signedNumber_append (K := K) sign rhs rest
      (hparts.right.right.right.right rhs.val (by simp) rhs.kind_eq)
    have hread :
        Read.constraint ((Statement.constraint label sum relation sign rhs).tokens ++ rest) =
        .ok (((Statement.constraint label sum relation sign rhs).meaning : LinProg.Statement K),
          rest) := by
      rw [constraint_meaning label sum relation sign rhs rest]
      simp only [Statement.tokens, List.append_assoc, List.cons_append, List.nil_append] at *
      simp only [Read.constraint, hlabel, hsum, relation?_kind, hrhs]
    obtain ⟨t, more, ht, _, hkind⟩ :=
      Statement.constraint_eq_cons label sum relation (leaf sign ++ [rhs.val])
    have htokens : (Statement.constraint label sum relation sign rhs).tokens = t :: more := by
      simpa [Statement.tokens] using ht
    rw [htokens] at hread ⊢
    simpa [readStatement, Read.statement, hkind] using hread

theorem objective_eq_ok {keyword : Leaf [.max, .min]} {tokens rest : List Token}
    {st : LinProg.Statement K} (h : Read.objective keyword.val tokens = .ok (st, rest)) :
    ∃ d : Statement, keyword.val :: tokens = d.tokens ++ rest ∧ st = d.meaning := by
  obtain ⟨colon, htokens, hstop⟩ := exists_colon keyword.val.span.stop tokens
  simp only [Read.objective, hstop] at h
  split at h
  · cases h
  · rename_i hterms
    cases h
    obtain ⟨sum, hleft, hsum⟩ := sum_eq_ok hterms
    refine ⟨.objective keyword colon sum, ?_, ?_⟩
    · rw [htokens, hleft]
      simp [Statement.tokens]
    · rw [objective_meaning, hsum]

theorem constraint_eq_ok {tokens rest : List Token} {st : LinProg.Statement K}
    (h : Read.constraint tokens = .ok (st, rest)) :
    ∃ d : Statement, tokens = d.tokens ++ rest ∧ st = d.meaning := by
  obtain ⟨label, htokens, hname⟩ := exists_label tokens
  simp only [Read.constraint] at h
  split at h
  · cases h
  · rename_i hterms
    obtain ⟨sum, hleft, hsum⟩ := sum_eq_ok hterms
    split at h
    · cases h
    · split at h
      · cases h
      · rename_i hrelation
        obtain ⟨relation, ht, hmeans⟩ := exists_relation hrelation
        split at h
        · cases h
        · rename_i hnumber
          cases h
          obtain ⟨sign, rhs, hrest, hvalue, hstop⟩ := signedNumber_eq_ok hnumber
          have hall :
              tokens = (Statement.constraint label sum relation sign rhs).tokens ++ rest := by
            rw [htokens, hleft, hrest, ← ht]
            simp [Statement.tokens]
          refine ⟨.constraint label sum relation sign rhs, hall, ?_⟩
          rw [constraint_meaning label sum relation sign rhs rest, ← hall, hname, hsum, hvalue,
            hstop, hmeans]

theorem statement_eq_ok {t : Token} {tokens rest : List Token} {st : LinProg.Statement K}
    (h : Read.statement t tokens = .ok (st, rest)) :
    ∃ d : Statement, t :: tokens = d.tokens ++ rest ∧ st = d.meaning := by
  unfold Read.statement at h
  split at h
  · rename_i hkind
    have hkeyword : t.kind ∈ [Token.Kind.max, Token.Kind.min] := by simpa using hkind
    have hread : Read.objective (⟨t, hkeyword⟩ : Leaf [.max, .min]).val tokens = .ok (st, rest) := h
    exact objective_eq_ok hread
  · exact constraint_eq_ok h

theorem dropWhile_isSeparator (leading : List Separator) {rest : List Token}
    (h : NotNext (fun t => t.isSeparator = true) rest) :
    (separators leading ++ rest).dropWhile Token.isSeparator = rest := by
  rw [List.dropWhile_append_of_pos fun t ht => isSeparator_of_mem leading ht]
  cases rest with
  | nil => rfl
  | cons t rest => exact List.dropWhile_cons_of_neg ((notNext_cons ..).mp h)

theorem exists_separators (tokens : List Token) : ∃ leading : List Separator,
    tokens = separators leading ++ tokens.dropWhile Token.isSeparator := by
  induction tokens with
  | nil => exact ⟨[], rfl⟩
  | cons t tokens ih =>
    by_cases h : t.isSeparator = true
    · obtain ⟨leading, hleading⟩ := ih
      have hkind : t.kind ∈ [Token.Kind.newline, Token.Kind.semicolon] := by
        simpa [Token.isSeparator] using h
      refine ⟨⟨t, hkind⟩ :: leading, ?_⟩
      rw [List.dropWhile_cons_of_pos h]
      simpa [separators] using hleading
    · exact ⟨[], by simp [separators, List.dropWhile_cons_of_neg h]⟩

theorem statements_of_separators (leading : List Separator) :
    (Read.statements (separators leading) : Except ReadError (List (LinProg.Statement K))) =
      .ok [] := by
  have h := dropWhile_isSeparator leading (notNext_nil _)
  rw [List.append_nil] at h
  unfold Read.statements
  split
  · rfl
  · rename_i heq
    rw [h] at heq
    cases heq

theorem statements_of_statement (leading : List Separator) {t : Token}
    {tokens rest left : List Token} {st : LinProg.Statement K} {others : List (LinProg.Statement K)}
    (ht : t.isSeparator = false) (hs : Read.statement t tokens = .ok (st, rest))
    (he : Read.endStatement rest = .ok left) (hothers : Read.statements left = .ok others) :
    Read.statements (separators leading ++ t :: tokens) = .ok (st :: others) := by
  have hdrop : (separators leading ++ t :: tokens).dropWhile Token.isSeparator = t :: tokens :=
    dropWhile_isSeparator leading (by simp [ht])
  unfold Read.statements
  split
  · rename_i heq
    rw [hdrop] at heq
    cases heq
  · rename_i heq
    cases hdrop.symm.trans heq
    split
    · simp_all
    · rename_i heq'
      cases hs.symm.trans heq'
      split <;> simp_all

/-- One statement is read with the separators before it and the one that ends it. -/
theorem statements_append (leading : List Separator) (st : Statement) {rest left : List Token}
    {others : List (LinProg.Statement K)} (hlegible : Legible st.tokens)
    (hrest : Statement.Ends rest) (he : Read.endStatement rest = .ok left)
    (hothers : Read.statements left = .ok others) :
    Read.statements (separators leading ++ (st.tokens ++ rest)) = .ok (st.meaning :: others) := by
  obtain ⟨t, more, ht, hsep⟩ := st.tokens_eq_cons
  have hread := statement_append (K := K) st hlegible hrest
  rw [ht, List.cons_append] at hread ⊢
  exact statements_of_statement leading hsep hread he hothers

theorem endStatement_separator (t : Separator) (rest : List Token) :
    Read.endStatement (t.val :: rest) = .ok rest := by
  simp [Read.endStatement, t.isSeparator]

theorem statements_separators (leading : List Separator) (rest : List Token) :
    (Read.statements (separators leading ++ rest) : Except ReadError (List (LinProg.Statement K))) =
      Read.statements rest := by
  have hdrop : (separators leading ++ rest).dropWhile Token.isSeparator =
      rest.dropWhile Token.isSeparator :=
    List.dropWhile_append_of_pos fun t ht => isSeparator_of_mem leading ht
  rw [Read.statements_eq, Read.statements_eq rest, hdrop]

/-- After a statement and the separator that ends it, the others are read. -/
theorem statements_cons (leading : List Separator) (st : Statement) (sep : Separator)
    (hlegible : Legible st.tokens) (rest : List Token) :
    Read.statements (separators leading ++ (st.tokens ++ sep.val :: rest)) =
      (Read.statements rest).map (List.cons (st.meaning : LinProg.Statement K)) := by
  obtain ⟨t, more, ht, hsep⟩ := st.tokens_eq_cons
  have hends : Statement.Ends (sep.val :: rest) := by simp [sep.isSeparator]
  have hread := statement_append (K := K) st hlegible hends
  rw [ht, List.cons_append] at hread ⊢
  have hread' : Read.statement t (more ++ sep.val :: rest) =
      .ok ((st.meaning : LinProg.Statement K), sep.val :: rest) := hread
  rw [statements_separators, Read.statements_eq, List.dropWhile_cons_of_neg (by simp [hsep])]
  simp only [hread', endStatement_separator]
  cases Read.statements (K := K) rest <;> rfl

theorem statements_body (leading trailing : List Separator) (st : Statement) (more : List Successor)
    (hlegible : Legible (st.tokens ++ more.flatMap Successor.tokens)) :
    Read.statements (separators leading ++
        (st.tokens ++ (more.flatMap Successor.tokens ++ separators trailing))) =
      .ok ((st :: more.map Successor.statement).map (Statement.meaning (K := K))) := by
  induction more generalizing leading st with
  | nil =>
    cases trailing with
    | nil =>
      have hend : Read.endStatement [] = .ok [] := rfl
      exact statements_append leading st hlegible.left (notNext_nil _) hend
        (statements_of_separators [])
    | cons t trailing =>
      have hends : Statement.Ends (t.val :: separators trailing) := by simp [t.isSeparator]
      exact statements_append leading st hlegible.left hends (endStatement_separator t _)
        (statements_of_separators trailing)
  | cons next more ih =>
    have hparts : Legible ([next.separator.val] ++ (separators next.others ++
        (next.statement.tokens ++ more.flatMap Successor.tokens))) := by
      have h := hlegible.right
      simpa [Successor.tokens] using h
    have hothers := ih next.others next.statement hparts.right.right
    have hends : Statement.Ends (next.separator.val :: (separators next.others ++
        (next.statement.tokens ++ (more.flatMap Successor.tokens ++ separators trailing)))) := by
      simp [next.separator.isSeparator]
    have h := statements_append leading st hlegible.left hends
      (endStatement_separator next.separator _) hothers
    simpa [Successor.tokens] using h

theorem statements_tokens (m : Model) (hlegible : Legible m.tokens) :
    Read.statements m.tokens = .ok (m.statements.map (Statement.meaning (K := K))) := by
  obtain ⟨leading, body⟩ := m
  cases body with
  | none => simpa [Model.tokens, Model.statements] using statements_of_separators (K := K) leading
  | some b =>
    have hparts : Legible (separators leading ++ ((b.first.tokens ++
        b.rest.flatMap Successor.tokens) ++ separators b.trailing)) := hlegible
    have h := statements_body (K := K) leading b.trailing b.first b.rest hparts.right.left
    simpa [Model.tokens, Model.statements, Body.tokens, Body.statements] using h

theorem endStatement_eq_ok {tokens rest : List Token} (h : Read.endStatement tokens = .ok rest) :
    tokens = [] ∧ rest = [] ∨ ∃ t : Separator, tokens = t.val :: rest := by
  cases tokens with
  | nil =>
    cases h
    exact .inl ⟨rfl, rfl⟩
  | cons t tokens =>
    simp only [Read.endStatement] at h
    split at h
    · rename_i hsep
      cases h
      have hkind : t.kind ∈ [Token.Kind.newline, Token.Kind.semicolon] := by
        simpa [Token.isSeparator] using hsep
      exact .inr ⟨⟨t, hkind⟩, rfl⟩
    · cases h

/-- A statement goes before the model that is left after it. -/
theorem exists_cons (leading : List Separator) (st : Statement) {rest : List Token} (m : Model)
    (he : Read.endStatement rest = .ok m.tokens) : ∃ n : Model,
      n.tokens = separators leading ++ (st.tokens ++ rest) ∧ n.statements = st :: m.statements := by
  obtain ⟨others, body⟩ := m
  rcases endStatement_eq_ok he with ⟨hrest, hnil⟩ | ⟨t, hrest⟩
  · refine ⟨⟨leading, some ⟨st, [], []⟩⟩,
      by simp [Model.tokens, Body.tokens, separators, hrest], ?_⟩
    cases body with
    | none => rfl
    | some b =>
      obtain ⟨u, more, hu, _⟩ := b.first.tokens_eq_cons
      simp [Model.tokens, Body.tokens, hu] at hnil
  · cases body with
    | none =>
      refine ⟨⟨leading, some ⟨st, [], t :: others⟩⟩, ?_, rfl⟩
      simp [Model.tokens, Body.tokens, separators, hrest]
    | some b =>
      refine ⟨⟨leading, some ⟨st, ⟨t, others, b.first⟩ :: b.rest, b.trailing⟩⟩, ?_, rfl⟩
      simp [Model.tokens, Body.tokens, Successor.tokens, hrest]

theorem statements_eq_ok {tokens : List Token} {sts : List (LinProg.Statement K)}
    (h : Read.statements tokens = .ok sts) :
    ∃ m : Model, m.tokens = tokens ∧ sts = m.statements.map Statement.meaning := by
  fun_induction Read.statements (K := K) tokens generalizing sts with
  | case1 tokens hdrop =>
    cases h
    obtain ⟨leading, hleading⟩ := exists_separators tokens
    rw [hdrop, List.append_nil] at hleading
    exact ⟨⟨leading, none⟩, by simp [Model.tokens, hleading], rfl⟩
  | case2 => cases h
  | case3 => cases h
  | case4 => cases h
  | case5 tokens t more hdrop st rest hs left he others hothers ih =>
    cases h
    obtain ⟨m, hm, hmeanings⟩ := ih hothers
    obtain ⟨d, hd, hst⟩ := statement_eq_ok hs
    obtain ⟨leading, hleading⟩ := exists_separators tokens
    rw [← hm] at he
    obtain ⟨n, hn, hstatements⟩ := exists_cons leading d m he
    refine ⟨n, ?_, ?_⟩
    · rw [hn, ← hd, ← hdrop, ← hleading]
    · rw [hstatements, List.map_cons, hst, hmeanings]

theorem legible_significant (text : List Char) : Legible (Token.significant text) :=
  fun _ ht hkind => Token.hasValue_of_mem_significant ht hkind

theorem ofText?_tokens {text : List Char} {d : Model} (h : d.tokens = Token.significant text) :
    LinProg.Model.ofText? text = .ok (d.meaning : LinProg.Model K) := by
  have hread := statements_tokens (K := K) d (by rw [h]; exact legible_significant text)
  rw [h] at hread
  simp [LinProg.Model.ofText?, hread, Model.meaning, Except.map]

theorem exists_derivation {text : List Char} {m : LinProg.Model K}
    (h : LinProg.Model.ofText? text = .ok m) : ∃ d : Model, d.tokens = Token.significant text := by
  unfold LinProg.Model.ofText? at h
  cases hread : (Read.statements (Token.significant text) :
      Except ReadError (List (LinProg.Statement K))) with
  | error e => simp [hread, Except.map] at h
  | ok sts =>
    obtain ⟨d, hd, _⟩ := statements_eq_ok hread
    exact ⟨d, hd⟩

/-- A model that is read is what the derivation of its tokens means. -/
theorem exists_meaning {text : List Char} {m : LinProg.Model K}
    (h : LinProg.Model.ofText? text = .ok m) :
    ∃ d : Model, d.tokens = Token.significant text ∧ m = d.meaning := by
  obtain ⟨d, hd⟩ := exists_derivation h
  rw [ofText?_tokens hd] at h
  exact ⟨d, hd, (Except.ok.inj h).symm⟩

end LinProg.Grammar
