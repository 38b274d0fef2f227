import LinProg.Proofs.Model.Lexemes
import LinProg.Proofs.Model.Unambiguous

/-!
# Reading sums follows the grammar

A reader that succeeds has read the tokens of a derivation and returns what the derivation means.
The tokens of a derivation are read, whatever follows them that does not go on the derivation.
-/
namespace LinProg.Grammar
variable {K : Type} [Scalar K]

/-- Every number among the tokens has a value. -/
def Legible (tokens : List Token) : Prop :=
  ∀ t ∈ tokens, t.kind = .number → Literal.HasValue t.text

theorem number_eq_ok {t : Token} {v : K} (h : Read.number t = .ok v) : v = value t := by
  unfold Read.number at h
  split at h
  · rename_i heq
    cases h
    simp [value, heq]
  · cases h

theorem number_eq_value {t : Token} (h : Literal.HasValue t.text) :
    Read.number t = .ok (value t : K) := by
  obtain ⟨v, hv⟩ := h K
  simp [Read.number, value, hv]

/-- The byte after the last token of a factor. -/
def Factor.stop : Factor → Nat
  | constant number => number.val.span.stop
  | product _ _ name | lone name => name.val.span.stop

/-- The term of a factor whose first token, or the sign before it, stands at the given byte. -/
def Factor.termAt (start : Nat) (negative : Bool) (f : Factor) : Term K :=
  ⟨⟨start, f.stop⟩, f.coefficient negative, f.name?⟩

omit [Scalar K] in
theorem named_eq_ok {start : Nat} {c : K} {tokens rest : List Token} {term : Term K}
    (h : Read.named start c tokens = .ok (term, rest)) :
    ∃ name : Name, tokens = name.val :: rest ∧
      term = ⟨⟨start, name.val.span.stop⟩, c, some (String.ofList name.val.text)⟩ := by
  cases tokens with
  | nil => cases h
  | cons t tokens =>
    simp only [Read.named] at h
    split at h
    · rename_i hkind
      cases h
      exact ⟨⟨t, by simp [hkind]⟩, rfl, rfl⟩
    · cases h

omit [Scalar K] in
theorem named_cons (start : Nat) (c : K) (name : Name) (rest : List Token) :
    Read.named start c (name.val :: rest) =
      .ok (⟨⟨start, name.val.span.stop⟩, c, some (String.ofList name.val.text)⟩, rest) := by
  simp [Read.named, name.kind_eq]

theorem factor_eq_ok {start : Nat} {negative : Bool} {tokens rest : List Token} {term : Term K}
    (h : Read.factor start negative tokens = .ok (term, rest)) :
    ∃ f : Factor, tokens = f.tokens ++ rest ∧ term = f.termAt start negative := by
  cases tokens with
  | nil => cases h
  | cons t tokens =>
    simp only [Read.factor] at h
    split at h
    · obtain ⟨name, htokens, hterm⟩ := named_eq_ok h
      exact ⟨.lone name, htokens, hterm⟩
    · rename_i hkind
      split at h
      · cases h
      · rename_i v hv
        have hvalue := number_eq_ok hv
        subst hvalue
        have hnumber : t.kind ∈ [Token.Kind.number] := by simp [hkind]
        unfold Read.afterNumber at h
        split at h
        · rename_i hstar
          cases tokens with
          | nil => cases h
          | cons s tokens =>
            obtain ⟨name, htokens, hterm⟩ := named_eq_ok h
            have hs : s.kind ∈ [Token.Kind.star] := by simpa using hstar
            refine ⟨.product ⟨t, hnumber⟩ (some ⟨s, hs⟩) name, ?_, hterm⟩
            simpa [Factor.tokens] using htokens
        · obtain ⟨name, htokens, hterm⟩ := named_eq_ok h
          refine ⟨.product ⟨t, hnumber⟩ none name, ?_, hterm⟩
          simp [Factor.tokens, htokens]
        · cases h
          exact ⟨.constant ⟨t, hnumber⟩, rfl, rfl⟩
    · cases h

omit [Scalar K] in
theorem afterNumber_of_notNext {start stop : Nat} {c : K} {rest : List Token}
    (hrest : NotNext GoesOnFactor rest) :
    Read.afterNumber start stop c rest = .ok (⟨⟨start, stop⟩, c, none⟩, rest) := by
  unfold Read.afterNumber
  cases rest with
  | nil => rfl
  | cons t rest =>
    rw [notNext_cons, GoesOnFactor, not_or] at hrest
    split <;> simp_all

theorem factor_append (start : Nat) (negative : Bool) (f : Factor) {rest : List Token}
    (hlegible : Legible f.tokens) (hrest : NotNext GoesOnFactor rest) :
    Read.factor start negative (f.tokens ++ rest) =
      .ok ((f.termAt start negative : Term K), rest) := by
  have hvalue (n : Number) (hn : n.val ∈ f.tokens) : Read.number n.val = .ok (value n.val : K) :=
    number_eq_value (hlegible n.val hn n.kind_eq)
  cases f with
  | constant n =>
    have hn := hvalue n (by simp [Factor.tokens])
    have hafter : Read.afterNumber start n.val.span.stop (Read.signed negative (value n.val : K))
        rest = .ok ((Factor.constant n).termAt start negative, rest) := afterNumber_of_notNext hrest
    simpa [Factor.tokens, Read.factor, n.kind_eq, hn] using hafter
  | product n star name =>
    have hn := hvalue n (by simp [Factor.tokens])
    have hname : Read.named start (Read.signed negative (value n.val : K)) (name.val :: rest) =
        .ok ((Factor.product n star name).termAt start negative, rest) := named_cons ..
    cases star with
    | none =>
      simpa [Factor.tokens, Read.factor, n.kind_eq, hn, Read.afterNumber, name.kind_eq] using hname
    | some star =>
      simpa [Factor.tokens, Read.factor, n.kind_eq, hn, Read.afterNumber, star.kind_eq] using hname
  | lone name =>
    have hname : Read.named start (Read.signed negative 1 : K) (name.val :: rest) =
        .ok ((Factor.lone name).termAt start negative, rest) := named_cons ..
    simpa [Factor.tokens, Read.factor, name.kind_eq] using hname

/-- The byte after the last of the tokens, or the given one if there is no token. -/
def lastStop (stop : Nat) (tokens : List Token) : Nat :=
  (tokens.getLast?.map (·.span.stop)).getD stop

@[simp] theorem lastStop_nil (stop : Nat) : lastStop stop [] = stop := rfl

@[simp] theorem lastStop_cons (stop : Nat) (t : Token) (tokens : List Token) :
    lastStop stop (t :: tokens) = lastStop t.span.stop tokens := by
  cases tokens with
  | nil => rfl
  | cons u tokens => simp [lastStop, List.getLast?_cons]

@[simp] theorem lastStop_append (stop : Nat) (tokens others : List Token) :
    lastStop stop (tokens ++ others) = lastStop (lastStop stop tokens) others := by
  induction tokens generalizing stop with
  | nil => rfl
  | cons t tokens ih => simp [ih]

theorem extent_eq (tokens : List Token) :
    extent tokens = ⟨Read.nextStart tokens, lastStop 0 tokens⟩ := rfl

theorem Factor.lastStop_tokens (f : Factor) (stop : Nat) : lastStop stop f.tokens = f.stop := by
  cases f with
  | constant n => rfl
  | product n star name => simp [tokens, Factor.stop]
  | lone name => rfl

/-- A factor and the sign before it. -/
theorem termOf_eq (sign : Option Sign) (f : Factor) (rest : List Token) :
    (termOf sign f : Term K) =
      f.termAt (Read.nextStart (leaf sign ++ (f.tokens ++ rest))) (isMinus sign) := by
  have hstart : Read.nextStart (leaf sign ++ f.tokens) =
      Read.nextStart (leaf sign ++ (f.tokens ++ rest)) := by
    obtain ⟨t, more, h, _⟩ := f.tokens_eq_cons
    cases sign <;> simp [Read.nextStart, h]
  simp [termOf, Factor.termAt, extent_eq, hstart, f.lastStop_tokens]

theorem termOf_stop (sign : Option Sign) (f : Factor) :
    (termOf sign f : Term K).span.stop = f.stop := by
  simp [termOf, extent_eq, f.lastStop_tokens]

theorem Addend.lastStop_tokens (a : Addend) (stop : Nat) :
    lastStop stop a.tokens = (a.term : Term K).span.stop := by
  cases a with
  | signed sign f => simp [tokens, term, termOf_stop, f.lastStop_tokens]
  | glued f _ => simp [tokens, term, termOf_stop, f.lastStop_tokens]

omit [Scalar K] in
@[simp] theorem termsStop_cons (stop : Nat) (t : Term K) (terms : List (Term K)) :
    Read.termsStop stop (t :: terms) = Read.termsStop t.span.stop terms := by
  cases terms with
  | nil => rfl
  | cons u terms => simp [Read.termsStop, List.getLast?_cons]

theorem termsStop_addends (stop : Nat) (as : List Addend) :
    Read.termsStop stop (as.map Addend.term : List (Term K)) =
      lastStop stop (as.flatMap Addend.tokens) := by
  induction as generalizing stop with
  | nil => rfl
  | cons a as ih => simp [ih, a.lastStop_tokens (K := K)]

theorem termsStop_sum (stop : Nat) (sum : Option Sum) :
    Read.termsStop stop (sumTerms sum : List (Term K)) = lastStop stop (sumTokens sum) := by
  cases sum with
  | none => rfl
  | some sum =>
    simp [sumTerms, Sum.terms, sumTokens, Sum.tokens, termsStop_addends, termOf_stop,
      sum.first.lastStop_tokens]

/-- What shows a reader that a term begins: it is the first, it has a sign, or its number has. -/
def Opens (first : Bool) (sign : Option Sign) (f : Factor) : Prop :=
  first = true ∨ sign.isSome = true ∨ f.isGlued = true

theorem termStart?_append {first : Bool} {sign : Option Sign} {f : Factor}
    (h : Opens first sign f) (rest : List Token) :
    Read.termStart? first (leaf sign ++ (f.tokens ++ rest)) =
      some (isMinus sign, f.tokens ++ rest) := by
  cases sign with
  | some sign => rcases sign.sign_kind with hkind | hkind <;> simp [Read.termStart?, isMinus, hkind]
  | none =>
    have hfirst : first = false → f.isGlued = true := by simpa [Opens, or_iff_not_imp_left] using h
    cases f with
    | constant n =>
      simpa [Factor.tokens, Read.termStart?, n.kind_eq, isMinus, Factor.isGlued] using hfirst
    | product n star name =>
      simpa [Factor.tokens, Read.termStart?, n.kind_eq, isMinus, Factor.isGlued] using hfirst
    | lone name =>
      simpa [Factor.tokens, Read.termStart?, name.kind_eq, isMinus, Factor.isGlued] using hfirst

theorem termStart?_eq_none (first : Bool) {rest : List Token} (h : NotNext BelongsToSum rest) :
    Read.termStart? first rest = none := by
  cases rest with
  | nil => rfl
  | cons t rest =>
    rw [notNext_cons, BelongsToSum] at h
    unfold Read.termStart?
    split <;> simp_all

/-- A factor that begins with a negative number does not need a sign before it. -/
theorem isGlued_of_isNegative {f : Factor} {t : Token} {tokens rest : List Token}
    (htokens : t :: tokens = f.tokens ++ rest) (hkind : t.kind = .number)
    (hnegative : t.isNegative = true) : f.isGlued = true := by
  cases f with
  | constant n =>
    have hn : t = n.val := (List.cons.inj htokens).1
    rwa [hn] at hnegative
  | product n star name =>
    have hn : t = n.val := (List.cons.inj htokens).1
    rwa [hn] at hnegative
  | lone name =>
    have hn : t = name.val := (List.cons.inj htokens).1
    rw [hn, name.kind_eq] at hkind
    cases hkind

theorem term_eq_ok {first negative : Bool} {tokens atFactor rest : List Token} {term : Term K}
    (hs : Read.termStart? first tokens = some (negative, atFactor))
    (hf : Read.factor (Read.nextStart tokens) negative atFactor = .ok (term, rest)) :
    ∃ sign f, Opens first sign f ∧ tokens = leaf sign ++ (f.tokens ++ rest) ∧
      term = termOf sign f := by
  obtain ⟨f, htokens, hterm⟩ := factor_eq_ok hf
  cases tokens with
  | nil => cases hs
  | cons t tokens =>
    have hkind (sign : Option Sign) (hsign : t :: tokens = leaf sign ++ atFactor)
        (hminus : negative = isMinus sign) (hopens : Opens first sign f) :
        ∃ sign f, Opens first sign f ∧ t :: tokens = leaf sign ++ (f.tokens ++ rest) ∧
          term = termOf sign f := by
      rw [htokens] at hsign
      refine ⟨sign, f, hopens, hsign, ?_⟩
      rw [hterm, hminus, hsign, termOf_eq sign f rest]
    simp only [Read.termStart?] at hs
    split at hs
    · rename_i hplus
      cases hs
      exact hkind (some ⟨t, by simp [hplus]⟩) rfl (by simp [isMinus, hplus]) (by simp [Opens])
    · rename_i hminus
      cases hs
      exact hkind (some ⟨t, by simp [hminus]⟩) rfl (by simp [isMinus, hminus]) (by simp [Opens])
    · split at hs
      · rename_i hfirst
        cases hs
        exact hkind none rfl rfl (.inl hfirst)
      · cases hs
    · split at hs
      · rename_i hnumber hfirst
        cases hs
        apply hkind none rfl rfl
        rcases Bool.or_eq_true_iff.mp hfirst with hfirst | hglued
        · exact .inl hfirst
        · exact .inr (.inr (isGlued_of_isNegative htokens hnumber hglued))
      · cases hs
    · cases hs

theorem terms_of_none {first : Bool} {tokens : List Token}
    (h : Read.termStart? first tokens = none) :
    (Read.terms first tokens : Except ReadError (List (Term K) × List Token)) =
      .ok ([], tokens) := by
  unfold Read.terms
  split
  · rfl
  · simp_all

theorem terms_of_some {first negative : Bool} {tokens atFactor left rest : List Token}
    {term : Term K} {more : List (Term K)}
    (hs : Read.termStart? first tokens = some (negative, atFactor))
    (hf : Read.factor (Read.nextStart tokens) negative atFactor = .ok (term, left))
    (hmore : Read.terms false left = .ok (more, rest)) :
    Read.terms first tokens = .ok (term :: more, rest) := by
  unfold Read.terms
  split
  · simp_all
  · rename_i heq
    cases hs.symm.trans heq
    split <;> simp_all

theorem Legible.left {tokens others : List Token} (h : Legible (tokens ++ others)) :
    Legible tokens :=
  fun t ht => h t (List.mem_append_left _ ht)

theorem Legible.right {tokens others : List Token} (h : Legible (tokens ++ others)) :
    Legible others :=
  fun t ht => h t (List.mem_append_right _ ht)

theorem term_append {first : Bool} {sign : Option Sign} {f : Factor} (hopens : Opens first sign f)
    {left rest : List Token} {more : List (Term K)} (hlegible : Legible f.tokens)
    (hleft : NotNext GoesOnFactor left) (hmore : Read.terms false left = .ok (more, rest)) :
    Read.terms first (leaf sign ++ (f.tokens ++ left)) = .ok (termOf sign f :: more, rest) := by
  apply terms_of_some (termStart?_append hopens left) _ hmore
  rw [termOf_eq sign f left]
  exact factor_append _ _ f hlegible hleft

theorem addends_append (as : List Addend) {rest : List Token}
    (hlegible : Legible (as.flatMap Addend.tokens)) (hrest : NotNext BelongsToSum rest) :
    Read.terms false (as.flatMap Addend.tokens ++ rest) =
      .ok (as.map (Addend.term (K := K)), rest) := by
  induction as with
  | nil => exact terms_of_none (termStart?_eq_none false hrest)
  | cons a as ih =>
    rw [List.flatMap_cons] at hlegible
    have hmore := ih hlegible.right
    have hleft := notNext_flatMap as hrest
    cases a with
    | signed sign f =>
      have hf : Legible ([sign.val] ++ f.tokens) := hlegible.left
      have hopens : Opens false (some sign) f := .inr (.inl rfl)
      simpa [Addend.tokens, Addend.term] using term_append hopens hf.right hleft hmore
    | glued f hglued =>
      have hopens : Opens false none f := .inr (.inr hglued)
      simpa [Addend.tokens, Addend.term] using term_append hopens hlegible.left hleft hmore

theorem sum_append (sum : Option Sum) {rest : List Token} (hlegible : Legible (sumTokens sum))
    (hrest : NotNext BelongsToSum rest) :
    Read.terms true (sumTokens sum ++ rest) = .ok ((sumTerms sum : List (Term K)), rest) := by
  cases sum with
  | none => exact terms_of_none (termStart?_eq_none true hrest)
  | some sum =>
    have hparts :
        Legible (leaf sum.sign ++ (sum.first.tokens ++ sum.rest.flatMap Addend.tokens)) := by
      simpa [sumTokens, Sum.tokens] using hlegible
    have hmore := addends_append (K := K) sum.rest hparts.right.right hrest
    have hopens : Opens true sum.sign sum.first := .inl rfl
    have h := term_append hopens hparts.right.left (notNext_flatMap sum.rest hrest) hmore
    simpa [sumTokens, sumTerms, Sum.tokens, Sum.terms] using h

/-- A term that needs a sign has one. -/
theorem exists_addend {sign : Option Sign} {f : Factor} (h : Opens false sign f) :
    ∃ a : Addend, a.tokens = leaf sign ++ f.tokens ∧ (a.term : Term K) = termOf sign f := by
  cases sign with
  | some sign => exact ⟨.signed sign f, rfl, rfl⟩
  | none =>
    have hglued : f.isGlued = true := by simpa [Opens] using h
    exact ⟨.glued f hglued, rfl, rfl⟩

theorem addends_eq_ok {tokens rest : List Token} {sum : List (Term K)}
    (h : Read.terms false tokens = .ok (sum, rest)) :
    ∃ as : List Addend, tokens = as.flatMap Addend.tokens ++ rest ∧ sum = as.map Addend.term := by
  generalize hfirst : false = first at h
  fun_induction Read.terms (K := K) first tokens generalizing sum with
  | case1 =>
    cases h
    exact ⟨[], rfl, rfl⟩
  | case2 => cases h
  | case3 => cases h
  | case4 first tokens negative atFactor hs term left hf more last hmore ih =>
    cases h
    obtain ⟨as, hleft, hsum⟩ := ih rfl hmore
    obtain ⟨sign, f, hopens, htokens, hterm⟩ := term_eq_ok hs hf
    rw [← hfirst] at hopens
    obtain ⟨a, ha, haterm⟩ := exists_addend (K := K) hopens
    exact ⟨a :: as, by simp [ha, htokens, hleft], by simp [haterm, hterm, hsum]⟩

theorem sum_eq_ok {tokens rest : List Token} {terms : List (Term K)}
    (h : Read.terms true tokens = .ok (terms, rest)) :
    ∃ sum : Option Sum, tokens = sumTokens sum ++ rest ∧ terms = sumTerms sum := by
  unfold Read.terms at h
  split at h
  · cases h
    exact ⟨none, rfl, rfl⟩
  · rename_i hs
    split at h
    · cases h
    · rename_i hf
      split at h
      · cases h
      · rename_i hmore
        cases h
        obtain ⟨as, hleft, hsum⟩ := addends_eq_ok hmore
        obtain ⟨sign, f, _, htokens, hterm⟩ := term_eq_ok hs hf
        refine ⟨some ⟨sign, f, as⟩, ?_, ?_⟩
        · simp [sumTokens, Sum.tokens, htokens, hleft]
        · simp [sumTerms, Sum.terms, hterm, hsum]

end LinProg.Grammar
