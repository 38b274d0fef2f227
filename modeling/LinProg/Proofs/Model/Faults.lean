import LinProg.Proofs.Model.Lookahead

/-!
# Statements are refused at the token that is wrong

The readers of statements look no further ahead than those of sums, but for a label, which two
tokens tell from a name. A list of statements is then refused behind tokens that some model begins
with, and whatever follows the token at fault.
-/
namespace LinProg.Grammar
variable {K : Type} [Scalar K]

theorem skipSign_local (tokens : List Token) : ∃ sign : Option Sign,
    tokens = leaf sign ++ (Read.skipSign tokens).2 ∧
      ∀ more, more.head? = (Read.skipSign tokens).2.head? →
        Read.skipSign (leaf sign ++ more) = (isMinus sign, more) := by
  cases tokens with
  | nil =>
    refine ⟨none, rfl, fun more hmore => ?_⟩
    rw [List.head?_eq_none_iff.mp hmore]
    rfl
  | cons t tokens =>
    by_cases hplus : t.kind = .plus
    · refine ⟨some ⟨t, by simp [hplus]⟩, ?_, fun more _ => ?_⟩ <;>
        simp [Read.skipSign, hplus, isMinus]
    · by_cases hminus : t.kind = .minus
      · refine ⟨some ⟨t, by simp [hminus]⟩, ?_, fun more _ => ?_⟩ <;>
          simp [Read.skipSign, hminus, isMinus]
      · have hnone : Read.skipSign (t :: tokens) = (false, t :: tokens) := by
          simp [Read.skipSign, hplus, hminus]
        rw [hnone]
        refine ⟨none, rfl, fun more hmore => ?_⟩
        obtain ⟨later, rfl⟩ := List.head?_eq_some_iff.mp hmore
        simp [Read.skipSign, hplus, hminus, isMinus]

/-- The tokens of a right-hand side. -/
def rhsTokens (rhs : Option Sign × Number) : List Token := leaf rhs.1 ++ [rhs.2.val]

theorem signedNumber_reads {tokens rest : List Token} {value : K × Nat} (hlegible : Legible tokens)
    (h : Read.signedNumber tokens = .ok (value, rest)) :
    ∃ rhs, tokens = rhsTokens rhs ++ rest ∧
      Reads Read.signedNumber (rhsTokens rhs) value rest := by
  obtain ⟨v, stop⟩ := value
  obtain ⟨sign, n, htokens, rfl, rfl⟩ := signedNumber_eq_ok h
  refine ⟨(sign, n), by simp [htokens, rhsTokens], fun more _ => ?_⟩
  have hvalue := hlegible n.val (by simp [htokens]) n.kind_eq
  simpa [rhsTokens] using signedNumber_append (K := K) sign n more hvalue

theorem signedNumber_faulty {tokens : List Token} {e : ReadError} (hlegible : Legible tokens)
    (h : (Read.signedNumber tokens : Except ReadError ((K × Nat) × List Token)) = .error e) :
    Faulty (Read.signedNumber (K := K)) rhsTokens tokens e := by
  obtain ⟨sign, htokens, hlocal⟩ := skipSign_local tokens
  have hbegins : Begins rhsTokens (leaf sign) :=
    ⟨(sign, someNumber), [someNumber.val], by simp, by simp [possible_completions _], rfl⟩
  simp only [Read.signedNumber] at h
  cases hrest : (Read.skipSign tokens).2 with
  | nil =>
    rw [hrest] at h htokens hlocal
    cases h
    refine ⟨leaf sign, [], .number, htokens, rfl, fun more hmore => ?_, hbegins⟩
    rw [List.head?_eq_none_iff.mp hmore]
    simp only [Read.signedNumber, hlocal [] rfl]
    rfl
  | cons t rest =>
    rw [hrest] at h htokens hlocal
    have hkind : t.kind ≠ .number := by
      intro hkind
      have hv : Read.number t = .ok (value t : K) :=
        number_eq_value (hlegible t (by simp [htokens]) hkind)
      simp [hkind, hv] at h
    simp only [if_neg hkind] at h
    cases h
    refine ⟨leaf sign, t :: rest, .number, htokens, rfl, fun more hmore => ?_, hbegins⟩
    have hsign := hlocal more hmore
    obtain ⟨later, rfl⟩ := List.head?_eq_some_iff.mp hmore
    simp [Read.signedNumber, hsign, hkind, ReadError.atNext]

/-- The two sides of a constraint with the relation between them, and the byte after them. -/
def comparison (tokens : List Token) :
    Except ReadError ((List (Term K) × Relation × K × Nat) × List Token) :=
  match Read.terms true tokens with
  | .error e => .error e
  | .ok (sum, rest) =>
      match rest with
      | [] => .error .unexpectedEnd
      | t :: rest =>
          match Read.relation? t.kind with
          | none => .error (.unexpectedToken .relation t)
          | some relation =>
              match Read.signedNumber rest with
              | .error e => .error e
              | .ok ((rhs, stop), rest) => .ok ((sum, relation, rhs, stop), rest)

theorem constraint_eq (tokens : List Token) :
    Read.constraint (K := K) tokens =
      match comparison (Read.label? tokens).2 with
      | .error e => .error e
      | .ok ((sum, relation, rhs, stop), rest) =>
          .ok (.constraint ⟨⟨Read.nextStart tokens, stop⟩, (Read.label? tokens).1, sum, relation,
            rhs⟩, rest) := by
  simp only [Read.constraint, comparison]
  split <;> (try split) <;> (try split) <;> (try split) <;> simp_all

/-- The tokens of a comparison. -/
def comparisonTokens
    (c : Option Sum × Leaf [.le, .ge, .eq] × Option Sign × Number) : List Token :=
  sumTokens c.1 ++ c.2.1.val :: rhsTokens c.2.2

theorem comparison_reads {tokens rest : List Token} {value : List (Term K) × Relation × K × Nat}
    (hlegible : Legible tokens) (h : comparison tokens = .ok (value, rest)) :
    ∃ before, tokens = before ++ rest ∧ Reads comparison before value rest := by
  unfold comparison at h
  split at h
  · cases h
  · rename_i sum left hterms
    obtain ⟨before, rfl, hreads⟩ := terms_reads hterms
    split at h
    · cases h
    · rename_i t left
      split at h
      · cases h
      · rename_i relation hrelation
        split at h
        · cases h
        · rename_i rhs stop last hnumber
          cases h
          have hleft : Legible ([t] ++ left) := hlegible.right
          obtain ⟨rhs, rfl, hrhs⟩ := signedNumber_reads hleft.right hnumber
          refine ⟨before ++ t :: rhsTokens rhs, by simp, fun more hmore => ?_⟩
          have hsum := hreads (t :: (rhsTokens rhs ++ more)) rfl
          have hnumber' := hrhs more hmore
          simp only [List.append_assoc, List.cons_append, comparison, hsum, hrelation, hnumber']

theorem comparison_faulty {tokens : List Token} {e : ReadError} (hlegible : Legible tokens)
    (h : (comparison tokens :
      Except ReadError ((List (Term K) × Relation × K × Nat) × List Token)) = .error e) :
    Faulty (comparison (K := K)) comparisonTokens tokens e := by
  unfold comparison at h
  split at h
  · rename_i hterms
    cases h
    refine (sum_faulty hlegible hterms).within [] [someRelation.val, someNumber.val]
      (by simp [possible_completions _]) (fun sum => ?_) fun before rest expected _ hstops => ?_
    · exact ⟨(some sum, someRelation, none, someNumber),
        by simp [comparisonTokens, sumTokens, rhsTokens]⟩
    · intro more hmore
      simp only [List.nil_append, comparison, hstops more hmore]
  · rename_i sum left hterms
    obtain ⟨d, hd, _⟩ := sum_eq_ok hterms
    obtain ⟨before, htokens, hreads⟩ := terms_reads hterms
    have hsum : before = sumTokens d := List.append_cancel_right (htokens.symm.trans hd)
    -- before the relation
    have hbegins : Begins comparisonTokens before :=
      ⟨(d, someRelation, none, someNumber), [someRelation.val, someNumber.val], by simp,
        by simp [possible_completions _], by simp [comparisonTokens, rhsTokens, hsum]⟩
    split at h
    · cases h
      refine ⟨before, [], .relation, htokens, rfl, fun more hmore => ?_, hbegins⟩
      rw [List.head?_eq_none_iff.mp hmore]
      simp only [comparison, hreads [] rfl]
      rfl
    · rename_i t left
      split at h
      · rename_i hrelation
        cases h
        refine ⟨before, t :: left, .relation, htokens, rfl, fun more hmore => ?_, hbegins⟩
        obtain ⟨later, rfl⟩ := List.head?_eq_some_iff.mp hmore
        simp only [comparison, hreads _ hmore, hrelation]
        rfl
      · rename_i relation hrelation
        split at h
        · rename_i hnumber
          cases h
          have hall : tokens = (before ++ [t]) ++ left := by simp [htokens]
          rw [hall] at hlegible ⊢
          obtain ⟨leafRelation, rfl, _⟩ := exists_relation hrelation
          refine (signedNumber_faulty hlegible.right hnumber).within _ [] (by simp)
            (fun rhs => ⟨(d, leafRelation, rhs), by simp [comparisonTokens, hsum]⟩)
            fun right rest expected _ hstops more hmore => ?_
          have hsum' := hreads (leafRelation.val :: (right ++ more)) rfl
          simp only [List.append_assoc, List.cons_append, List.nil_append, comparison, hsum',
            hrelation, hstops more hmore]
        · cases h

/-- A name is read as a sum, after which the relation is missing. -/
theorem comparison_name {t : Token} (hkind : t.kind = .ident) :
    comparison (K := K) [t] = .error .unexpectedEnd := by
  have hlegible : Legible (sumTokens (some ⟨none, .lone ⟨t, by simp [hkind]⟩, []⟩)) := by
    intro u hu hnumber
    have hut : u = t := by simpa [sumTokens, Sum.tokens, Factor.tokens] using hu
    rw [hut, hkind] at hnumber
    cases hnumber
  have hterms := sum_append (K := K) _ hlegible (notNext_nil _)
  have htokens : sumTokens (some ⟨none, .lone ⟨t, by simp [hkind]⟩, []⟩) ++ [] = [t] := rfl
  rw [htokens] at hterms
  simp only [comparison, hterms]

/-- Two tokens decide whether a label begins the tokens. If none of them is read after it, the first
is no name, and decides alone. -/
theorem label?_local (tokens : List Token) : ∃ label,
    tokens = labelTokens label ++ (Read.label? tokens).2 ∧
      (Read.label? tokens).1 = labelName label ∧
      ∀ before rest more, (Read.label? tokens).2 = before ++ rest → more.head? = rest.head? →
        (before = [] → NotNext (fun t => t.kind = .ident) rest) →
        Read.label? (labelTokens label ++ (before ++ more)) =
          (labelName label, before ++ more) := by
  by_cases hlabel : ∃ t colon rest, tokens = t :: colon :: rest ∧ t.kind = .ident ∧
      colon.kind = .colon
  · obtain ⟨t, colon, rest, rfl, hname, hcolon⟩ := hlabel
    refine ⟨some (⟨t, by simp [hname]⟩, ⟨colon, by simp [hcolon]⟩), ?_, ?_,
      fun before _ more _ _ _ => ?_⟩
    all_goals simp [Read.label?, labelTokens, labelName, hname, hcolon]
  · have hnone : Read.label? tokens = (none, tokens) := by
      unfold Read.label?
      split
      · rename_i t colon rest
        rw [if_neg fun h => hlabel ⟨t, colon, rest, rfl, h⟩]
      · rfl
    rw [hnone]
    refine ⟨none, rfl, rfl, fun before rest more htokens hmore hname => ?_⟩
    apply label?_append none
    intro t u later hlater hident hcolon
    rcases before with _ | ⟨x, _ | ⟨y, before⟩⟩
    · rw [List.nil_append] at hlater
      exact hname rfl t (by simp [← hmore, hlater]) hident
    · obtain ⟨rfl, rfl⟩ := List.cons.inj hlater
      obtain ⟨more, rfl⟩ := List.head?_eq_some_iff.mp hmore.symm
      exact hlabel ⟨x, u, more, htokens, hident, hcolon⟩
    · simp only [List.cons_append, List.cons.injEq] at hlater
      obtain ⟨rfl, rfl, _⟩ := hlater
      exact hlabel ⟨x, y, before ++ rest, htokens, hident, hcolon⟩

theorem constraint_reads {tokens rest : List Token} {st : LinProg.Statement K}
    (hlegible : Legible tokens) (h : Read.constraint tokens = .ok (st, rest)) :
    ∃ before, tokens = before ++ rest ∧ Reads Read.constraint before st rest := by
  obtain ⟨label, htokens, hname, hlocal⟩ := label?_local tokens
  rw [constraint_eq] at h
  split at h
  · cases h
  · rename_i sum relation rhs stop left hcomparison
    cases h
    rw [htokens] at hlegible
    obtain ⟨before, hbefore, hreads⟩ := comparison_reads hlegible.right hcomparison
    rw [hbefore] at htokens
    refine ⟨labelTokens label ++ before, by simpa using htokens, fun more hmore => ?_⟩
    have hstart : Read.nextStart (labelTokens label ++ before ++ more) = Read.nextStart tokens := by
      rw [htokens, ← List.append_assoc]
      exact nextStart_congr (head?_append_congr hmore)
    have hlabel := hlocal before rest more hbefore hmore fun hnil t ht hkind => by
      have hread := hreads [t] ht.symm
      rw [hnil, List.nil_append, comparison_name hkind] at hread
      cases hread
    rw [constraint_eq, hstart, List.append_assoc, hlabel, hname]
    simp only [hreads more hmore]

theorem constraint_faulty {tokens : List Token} {e : ReadError} (hlegible : Legible tokens)
    (h : (Read.constraint tokens : Except ReadError (LinProg.Statement K × List Token)) =
      .error e) :
    Faulty (Read.constraint (K := K)) Statement.tokens tokens e := by
  obtain ⟨label, htokens, _, hlocal⟩ := label?_local tokens
  rw [constraint_eq] at h
  split at h
  · rename_i hcomparison
    cases h
    rw [htokens] at hlegible ⊢
    refine (comparison_faulty hlegible.right hcomparison).within _ [] (by simp) (fun c => ?_)
      fun before rest expected hbefore hstops more hmore => ?_
    · exact ⟨.constraint label c.1 c.2.1 c.2.2.1 c.2.2.2,
        by simp [Statement.tokens, comparisonTokens, rhsTokens]⟩
    · have hlabel := hlocal before rest more hbefore hmore fun hnil t ht hkind => by
        have hstop := hstops [t] ht.symm
        rw [hnil, List.nil_append, comparison_name hkind] at hstop
        cases hstop
      rw [constraint_eq, List.append_assoc, hlabel]
      simp only [hstops more hmore]
  · cases h

theorem skipColon_local (stop : Nat) (tokens : List Token) : ∃ colon : Option (Leaf [.colon]),
    tokens = leaf colon ++ (Read.skipColon stop tokens).2 ∧
      ∀ more, more.head? = (Read.skipColon stop tokens).2.head? →
        Read.skipColon stop (leaf colon ++ more) = ((Read.skipColon stop tokens).1, more) := by
  cases tokens with
  | nil =>
    refine ⟨none, rfl, fun more hmore => ?_⟩
    rw [List.head?_eq_none_iff.mp hmore]
    rfl
  | cons t tokens =>
    by_cases hcolon : t.kind = .colon
    · refine ⟨some ⟨t, by simp [hcolon]⟩, ?_, fun more _ => ?_⟩ <;> simp [Read.skipColon, hcolon]
    · have hnone : Read.skipColon stop (t :: tokens) = (stop, t :: tokens) := by
        simp [Read.skipColon, hcolon]
      rw [hnone]
      refine ⟨none, rfl, fun more hmore => ?_⟩
      obtain ⟨later, rfl⟩ := List.head?_eq_some_iff.mp hmore
      simp [Read.skipColon, hcolon]

theorem objective_reads {keyword : Token} {tokens rest : List Token} {st : LinProg.Statement K}
    (h : Read.objective keyword tokens = .ok (st, rest)) :
    ∃ before, tokens = before ++ rest ∧ Reads (Read.objective keyword) before st rest := by
  obtain ⟨colon, htokens, hlocal⟩ := skipColon_local keyword.span.stop tokens
  simp only [Read.objective] at h
  split at h
  · cases h
  · rename_i sum left hterms
    cases h
    obtain ⟨before, hbefore, hreads⟩ := terms_reads hterms
    rw [hbefore] at htokens hlocal
    refine ⟨leaf colon ++ before, by simpa using htokens, fun more hmore => ?_⟩
    have hcolon := hlocal (before ++ more) (head?_append_congr hmore)
    simp only [Read.objective, List.append_assoc, hcolon, hreads more hmore]

theorem objective_faulty {keyword : Leaf [.max, .min]} {tokens : List Token} {e : ReadError}
    (hlegible : Legible tokens) (h : (Read.objective keyword.val tokens :
      Except ReadError (LinProg.Statement K × List Token)) = .error e) :
    Faulty (Read.objective (K := K) keyword.val)
      (fun o : Option (Leaf [.colon]) × Sum => leaf o.1 ++ o.2.tokens) tokens e := by
  obtain ⟨colon, htokens, hlocal⟩ := skipColon_local keyword.val.span.stop tokens
  simp only [Read.objective] at h
  split at h
  · rename_i hterms
    cases h
    rw [htokens] at hlegible ⊢
    refine (sum_faulty hlegible.right hterms).within _ [] (by simp)
      (fun sum => ⟨(colon, sum), by simp⟩) fun before rest expected hbefore hstops more hmore => ?_
    rw [hbefore] at hlocal
    have hcolon := hlocal (before ++ more) (head?_append_congr hmore)
    simp only [Read.objective, List.append_assoc, hcolon, hstops more hmore]
  · cases h

/-- A token that is no keyword begins a constraint, and so does no token. -/
theorem readStatement_eq_constraint {tokens : List Token}
    (h : ∀ t ∈ tokens.head?, ¬ (t.kind = .max ∨ t.kind = .min)) :
    readStatement (K := K) tokens = Read.constraint tokens := by
  cases tokens with
  | nil =>
    have hterms : Read.terms true [] = .ok (([] : List (Term K)), []) := terms_of_none rfl
    simp [readStatement, Read.constraint, Read.label?, hterms]
  | cons t tokens => simp only [readStatement, Read.statement, if_neg (h t rfl)]

theorem readStatement_eq_objective (keyword : Leaf [.max, .min]) (tokens : List Token) :
    readStatement (K := K) (keyword.val :: tokens) = Read.objective keyword.val tokens := by
  simp only [readStatement, Read.statement, if_pos keyword.keyword_kind]

theorem keyword_cases (tokens : List Token) :
    (∃ keyword : Leaf [.max, .min], ∃ rest, tokens = keyword.val :: rest) ∨
      ∀ t ∈ tokens.head?, ¬ (t.kind = .max ∨ t.kind = .min) := by
  cases tokens with
  | nil => exact .inr (by simp)
  | cons t tokens =>
    by_cases hkind : t.kind = .max ∨ t.kind = .min
    · exact .inl ⟨⟨t, by simpa using hkind⟩, tokens, rfl⟩
    · exact .inr (by simpa using hkind)

theorem statement_reads {tokens rest : List Token} {st : LinProg.Statement K}
    (hlegible : Legible tokens) (h : readStatement tokens = .ok (st, rest)) :
    ∃ before, tokens = before ++ rest ∧ Reads readStatement before st rest := by
  rcases keyword_cases tokens with ⟨keyword, tokens, rfl⟩ | hkind
  · rw [readStatement_eq_objective] at h
    obtain ⟨before, rfl, hreads⟩ := objective_reads h
    refine ⟨keyword.val :: before, rfl, fun more hmore => ?_⟩
    rw [List.cons_append, readStatement_eq_objective, hreads more hmore]
  · rw [readStatement_eq_constraint hkind] at h
    obtain ⟨before, rfl, hreads⟩ := constraint_reads hlegible h
    refine ⟨before, rfl, fun more hmore => ?_⟩
    rw [← head?_append_congr hmore] at hkind
    rw [readStatement_eq_constraint hkind, hreads more hmore]

theorem statement_faulty {tokens : List Token} {e : ReadError} (hlegible : Legible tokens)
    (h : (readStatement tokens : Except ReadError (LinProg.Statement K × List Token)) = .error e) :
    Faulty (readStatement (K := K)) Statement.tokens tokens e := by
  rcases keyword_cases tokens with ⟨keyword, tokens, rfl⟩ | hkind
  · rw [readStatement_eq_objective] at h
    have htokens : Legible ([keyword.val] ++ tokens) := hlegible
    refine (objective_faulty htokens.right h).within [keyword.val] [] (by simp)
      (fun o => ⟨.objective keyword o.1 (some o.2), by simp [Statement.tokens, sumTokens]⟩)
      fun before rest expected _ hstops more hmore => ?_
    rw [List.singleton_append, List.cons_append, readStatement_eq_objective, hstops more hmore]
  · rw [readStatement_eq_constraint hkind] at h
    obtain ⟨before, rest, expected, rfl, he, hstops, hbegins⟩ := constraint_faulty hlegible h
    refine ⟨before, rest, expected, rfl, he, fun more hmore => ?_, hbegins⟩
    rw [← head?_append_congr hmore] at hkind
    rw [readStatement_eq_constraint hkind, hstops more hmore]

/-- Behind separators, the first statement is read. -/
theorem statements_eq_readStatement (leading : List Separator) {t : Token}
    (hsep : t.isSeparator = false) {tokens : List Token} (ht : tokens.head? = some t) :
    Read.statements (separators leading ++ tokens) =
      match readStatement (K := K) tokens with
      | .error e => .error e
      | .ok (first, rest) =>
          match Read.endStatement rest with
          | .error e => .error e
          | .ok rest => (Read.statements rest).map (List.cons first) := by
  obtain ⟨rest, rfl⟩ := List.head?_eq_some_iff.mp ht
  rw [statements_separators, Read.statements_eq, List.dropWhile_cons_of_neg (by simp [hsep])]
  simp only [readStatement]
  cases Read.statement (K := K) t rest with
  | error e => rfl
  | ok first =>
    cases hend : Read.endStatement first.2 with
    | error e => simp [hend]
    | ok last => cases hlast : Read.statements (K := K) last <;> simp [hend, hlast, Except.map]

theorem isSeparator_of_dropWhile {tokens rest : List Token} {t : Token}
    (h : tokens.dropWhile Token.isSeparator = t :: rest) : t.isSeparator = false := by
  have hhead := List.head?_dropWhile_not Token.isSeparator tokens
  rw [h] at hhead
  simpa using hhead

theorem statements_faulty {tokens : List Token} {e : ReadError} (hlegible : Legible tokens)
    (h : (Read.statements tokens : Except ReadError (List (LinProg.Statement K))) = .error e) :
    Faulty (Read.statements (K := K)) Model.tokens tokens e := by
  fun_induction Read.statements (K := K) tokens generalizing e with
  | case1 => cases h
  | case2 tokens t rest hdrop fault hs =>
    cases h
    obtain ⟨leading, hleading⟩ := exists_separators tokens
    have hsep := isSeparator_of_dropWhile hdrop
    rw [hdrop] at hleading
    rw [hleading] at hlegible ⊢
    have hfaulty : Faulty (readStatement (K := K)) Statement.tokens (t :: rest) fault :=
      statement_faulty hlegible.right hs
    refine hfaulty.within _ [] (by simp) (fun d => ?_)
      fun before left expected hrest hstops more hmore => ?_
    · exact ⟨⟨leading, some ⟨d, [], []⟩⟩, by simp [Model.tokens, Body.tokens, separators]⟩
    · have hhead : (before ++ more).head? = some t := by
        rw [head?_append_congr hmore, ← hrest]
        rfl
      rw [List.append_assoc, statements_eq_readStatement leading hsep hhead, hstops more hmore]
  | case3 tokens t rest hdrop first left hs fault he =>
    cases h
    obtain ⟨leading, hleading⟩ := exists_separators tokens
    have hsep := isSeparator_of_dropWhile hdrop
    rw [hdrop] at hleading
    rw [hleading] at hlegible
    obtain ⟨d, hd, _⟩ := statement_eq_ok hs
    obtain ⟨before, hrest, hreads⟩ := @statement_reads K _ (t :: rest) _ _ hlegible.right hs
    have hbefore : before = d.tokens := List.append_cancel_right (hrest.symm.trans hd)
    cases left with
    | nil => cases he
    | cons u left =>
      simp only [Read.endStatement] at he
      split at he
      · cases he
      · rename_i hu
        cases he
        refine ⟨separators leading ++ before, u :: left, .endOfStatement,
          by simp [hleading, hrest], rfl, fun more hmore => ?_, ?_⟩
        · have hhead : (before ++ more).head? = some t := by
            rw [head?_append_congr hmore, ← hrest]
            rfl
          have hread := hreads more hmore
          obtain ⟨later, rfl⟩ := List.head?_eq_some_iff.mp hmore
          rw [List.append_assoc, statements_eq_readStatement leading hsep hhead, hread]
          simp only [Read.endStatement, if_neg hu]
          rfl
        · refine ⟨⟨leading, some ⟨d, [], [someSeparator]⟩⟩, [someSeparator.val], by simp,
            by simp [possible_completions _], ?_⟩
          simp [Model.tokens, Body.tokens, separators, hbefore]
  | case4 tokens t rest hdrop first left hs last he fault hothers ih =>
    cases h
    obtain ⟨leading, hleading⟩ := exists_separators tokens
    rw [hdrop] at hleading
    rw [hleading] at hlegible
    obtain ⟨d, hd, _⟩ := statement_eq_ok hs
    rw [hd] at hleading hlegible
    rcases endStatement_eq_ok he with ⟨_, rfl⟩ | ⟨sep, rfl⟩
    · cases hothers.symm.trans (statements_of_separators [])
    · have hlast : Legible ([sep.val] ++ last) := hlegible.right.right
      have hall : tokens = (separators leading ++ (d.tokens ++ [sep.val])) ++ last := by
        simp [hleading]
      rw [hall]
      refine (ih hlast.right hothers).within _ [] (by simp) (fun m => ?_)
        fun before rest expected _ hstops more hmore => ?_
      · obtain ⟨n, hn, _⟩ := exists_cons leading d m (endStatement_separator sep m.tokens)
        exact ⟨n, by simp [hn]⟩
      · have hcons := statements_cons (K := K) leading d sep hlegible.right.left (before ++ more)
        rw [hstops more hmore] at hcons
        simpa [Except.map] using hcons
  | case5 => cases h

end LinProg.Grammar
