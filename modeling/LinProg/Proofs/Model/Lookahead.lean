import LinProg.Proofs.Model.Breaks
import LinProg.Proofs.Model.Parsing

/-!
# Readers look one token ahead

A reader that succeeds has seen what it has read and the token after it. A reader that fails has
seen nothing behind the token at fault, and what it has read by then begins something that the
grammar derives: no fault is found later than it could be, and none too early.
-/
namespace LinProg.Grammar
variable {K : Type} [Scalar K]

/-- The reader reads the tokens and returns `a`, whatever comes next, as long as it begins like
`rest`. -/
def Reads {A : Type} (reader : List Token → Except ReadError (A × List Token)) (tokens : List Token)
    (a : A) (rest : List Token) : Prop :=
  ∀ more, more.head? = rest.head? → reader (tokens ++ more) = .ok (a, more)

/-- The reader expects something else behind the tokens, whatever comes next, as long as it begins
like `rest`. -/
def Stops {A : Type} (reader : List Token → Except ReadError A) (tokens : List Token)
    (expected : Expected) (rest : List Token) : Prop :=
  ∀ more, more.head? = rest.head? → reader (tokens ++ more) = .error (.atNext expected more)

/-- The tokens begin those of a derivation, and some are missing. -/
def Begins {D : Type} (spell : D → List Token) (tokens : List Token) : Prop :=
  ∃ d more, more ≠ [] ∧ (∀ t ∈ more, t.Possible) ∧ spell d = tokens ++ more

/-- The reader finds a fault that it could not find earlier or later. -/
def Faulty {A D : Type} (reader : List Token → Except ReadError A) (spell : D → List Token)
    (tokens : List Token) (e : ReadError) : Prop :=
  ∃ before rest expected, tokens = before ++ rest ∧ e = .atNext expected rest ∧
    Stops reader before expected rest ∧ Begins spell before

theorem head?_append_congr {tokens more rest : List Token} (h : more.head? = rest.head?) :
    (tokens ++ more).head? = (tokens ++ rest).head? := by
  simp [h]

theorem nextStart_congr {more rest : List Token} (h : more.head? = rest.head?) :
    Read.nextStart more = Read.nextStart rest := by
  simp [Read.nextStart, h]

/-- What begins a part of a derivation begins the derivation, behind what stands before the part. -/
theorem Begins.within {C D : Type} {spell : C → List Token} {whole : D → List Token}
    {tokens : List Token} (h : Begins spell tokens) (left right : List Token)
    (hright : ∀ t ∈ right, t.Possible)
    (hwhole : ∀ c, ∃ d, whole d = left ++ (spell c ++ right)) : Begins whole (left ++ tokens) := by
  obtain ⟨c, more, hne, hmore, hc⟩ := h
  obtain ⟨d, hd⟩ := hwhole c
  refine ⟨d, more ++ right, by simp [hne], ?_, by simp [hd, hc]⟩
  intro t ht
  rcases List.mem_append.mp ht with ht | ht
  · exact hmore t ht
  · exact hright t ht

/-- A reader that calls another one, and passes its faults on, finds them where the other does. -/
theorem Faulty.within {A B C D : Type} {inner : List Token → Except ReadError A}
    {outer : List Token → Except ReadError B} {spell : C → List Token} {whole : D → List Token}
    {tokens : List Token} {e : ReadError} (h : Faulty inner spell tokens e)
    (left right : List Token) (hright : ∀ t ∈ right, t.Possible)
    (hwhole : ∀ c, ∃ d, whole d = left ++ (spell c ++ right))
    (houter : ∀ before rest expected, tokens = before ++ rest →
      Stops inner before expected rest → Stops outer (left ++ before) expected rest) :
    Faulty outer whole (left ++ tokens) e := by
  obtain ⟨before, rest, expected, rfl, rfl, hstops, hbegins⟩ := h
  exact ⟨left ++ before, rest, expected, by simp, rfl, houter before rest expected rfl hstops,
    hbegins.within left right hright hwhole⟩

def someName : Name := ⟨⟨.ident, ⟨0, 0⟩, ['x']⟩, by decide⟩

def someNumber : Number := ⟨⟨.number, ⟨0, 0⟩, ['0']⟩, by decide⟩

def someSign : Sign := ⟨⟨.plus, ⟨0, 0⟩, ['+']⟩, by decide⟩

def someRelation : Leaf [.le, .ge, .eq] := ⟨⟨.eq, ⟨0, 0⟩, ['=']⟩, by decide⟩

def someSeparator : Separator := ⟨⟨.semicolon, ⟨0, 0⟩, [';']⟩, by decide⟩

theorem possible_completions :
    ∀ t ∈ [someName.val, someNumber.val, someSign.val, someRelation.val, someSeparator.val],
      t.Possible := by
  simp only [List.forall_mem_cons, List.not_mem_nil, false_imp_iff, implies_true, and_true]
  refine ⟨?_, ?_, ?_, ?_, ?_⟩
  · exact ⟨by decide, 'x', [], rfl, rfl, rfl⟩
  · exact ⟨by decide, '0', [], rfl, rfl, rfl⟩
  · exact ⟨by decide, '+', [], rfl, rfl, rfl⟩
  · exact ⟨by decide, '=', [], rfl, rfl, rfl⟩
  · exact ⟨by decide, ';', [], rfl, rfl, rfl⟩

omit [Scalar K] in
theorem named_stops {start : Nat} {c : K} {tokens : List Token} {e : ReadError}
    (h : Read.named start c tokens = .error e) :
    e = .atNext .name tokens ∧ Stops (Read.named start c) [] .name tokens := by
  cases tokens with
  | nil =>
    cases h
    refine ⟨rfl, fun more hmore => ?_⟩
    rw [List.head?_eq_none_iff.mp hmore]
    rfl
  | cons t tokens =>
    simp only [Read.named] at h
    split at h
    · cases h
    · rename_i hkind
      cases h
      refine ⟨rfl, fun more hmore => ?_⟩
      obtain ⟨later, rfl⟩ := List.head?_eq_some_iff.mp hmore
      simp [Read.named, hkind, ReadError.atNext]

omit [Scalar K] in
theorem afterNumber_reads {start stop : Nat} {c : K} {tokens rest : List Token} {term : Term K}
    (h : Read.afterNumber start stop c tokens = .ok (term, rest)) :
    ∃ before, tokens = before ++ rest ∧ Reads (Read.afterNumber start stop c) before term rest := by
  unfold Read.afterNumber at h
  split at h
  · rename_i hstar
    cases tokens with
    | nil => cases hstar
    | cons star tokens =>
      have hkind : star.kind = .star := by simpa using hstar
      obtain ⟨name, htokens, rfl⟩ := named_eq_ok h
      refine ⟨[star, name.val], congrArg (List.cons star) htokens, fun more _ => ?_⟩
      simp [Read.afterNumber, hkind, named_cons]
  · obtain ⟨name, rfl, rfl⟩ := named_eq_ok h
    refine ⟨[name.val], rfl, fun more _ => ?_⟩
    simp [Read.afterNumber, name.kind_eq, named_cons]
  · cases h
    refine ⟨[], rfl, fun more hmore => ?_⟩
    unfold Read.afterNumber
    rw [List.nil_append, hmore]
    split <;> simp_all

omit [Scalar K] in
theorem afterNumber_stops {start stop : Nat} {c : K} {tokens : List Token} {e : ReadError}
    (h : Read.afterNumber start stop c tokens = .error e) :
    ∃ star : Leaf [.star], ∃ rest, tokens = star.val :: rest ∧ e = .atNext .name rest ∧
      Stops (Read.afterNumber start stop c) [star.val] .name rest := by
  unfold Read.afterNumber at h
  split at h
  · rename_i hstar
    cases tokens with
    | nil => cases hstar
    | cons star tokens =>
      have hkind : star.kind = .star := by simpa using hstar
      obtain ⟨he, hstops⟩ := named_stops h
      refine ⟨⟨star, by simp [hkind]⟩, tokens, rfl, he, fun more hmore => ?_⟩
      have hname := hstops more hmore
      simpa [Read.afterNumber, hkind] using hname
  · rename_i hident
    cases tokens with
    | nil => cases hident
    | cons t tokens =>
      have hkind : t.kind = .ident := by simpa using hident
      simp [Read.named, hkind] at h
  · cases h

theorem factor_reads {start : Nat} {negative : Bool} {tokens rest : List Token} {term : Term K}
    (h : Read.factor start negative tokens = .ok (term, rest)) :
    ∃ before, tokens = before ++ rest ∧ Reads (Read.factor start negative) before term rest := by
  cases tokens with
  | nil => cases h
  | cons t tokens =>
    simp only [Read.factor] at h
    split at h
    · obtain ⟨name, htokens, rfl⟩ := named_eq_ok h
      refine ⟨[name.val], htokens, fun more _ => ?_⟩
      simp [Read.factor, name.kind_eq, named_cons]
    · rename_i hkind
      split at h
      · cases h
      · rename_i v hv
        obtain ⟨before, htokens, hreads⟩ := afterNumber_reads h
        refine ⟨t :: before, by simp [htokens], fun more hmore => ?_⟩
        have hafter := hreads more hmore
        simp [Read.factor, hkind, hv, hafter]
    · cases h

/-- Where a factor is to begin, a name makes it whole. -/
theorem begins_factor : Begins Factor.tokens [] :=
  ⟨.lone someName, [someName.val], by simp, by simp [possible_completions _], rfl⟩

theorem factor_faulty {start : Nat} {negative : Bool} {tokens : List Token} {e : ReadError}
    (hlegible : Legible tokens) (h : (Read.factor start negative tokens :
      Except ReadError (Term K × List Token)) = .error e) :
    Faulty (Read.factor (K := K) start negative) Factor.tokens tokens e := by
  cases tokens with
  | nil =>
    cases h
    refine ⟨[], [], .term, rfl, rfl, fun more hmore => ?_, begins_factor⟩
    rw [List.head?_eq_none_iff.mp hmore]
    rfl
  | cons t tokens =>
    simp only [Read.factor] at h
    split at h
    · rename_i hkind
      simp [Read.named, hkind] at h
    · rename_i hkind
      have hv : Read.number t = .ok (value t : K) :=
        number_eq_value (hlegible t List.mem_cons_self hkind)
      rw [hv] at h
      obtain ⟨star, rest, rfl, he, hstops⟩ := afterNumber_stops h
      refine ⟨[t, star.val], rest, .name, rfl, he, fun more hmore => ?_, ?_⟩
      · have hafter := hstops more hmore
        simpa [Read.factor, hkind, hv] using hafter
      · exact ⟨.product ⟨t, by simp [hkind]⟩ (some star) someName, [someName.val], by simp,
          by simp [possible_completions _], rfl⟩
    · rename_i hident hnumber
      cases h
      refine ⟨[], t :: tokens, .term, rfl, rfl, fun more hmore => ?_, begins_factor⟩
      obtain ⟨later, rfl⟩ := List.head?_eq_some_iff.mp hmore
      simp only [List.nil_append, Read.factor]
      rfl

theorem termStart?_congr (first : Bool) {tokens others : List Token}
    (h : tokens.head? = others.head?) (hnone : Read.termStart? first others = none) :
    Read.termStart? first tokens = none := by
  cases others with
  | nil => rw [List.head?_eq_none_iff.mp h]; rfl
  | cons t others =>
    obtain ⟨later, rfl⟩ := List.head?_eq_some_iff.mp h
    simp only [Read.termStart?] at hnone ⊢
    split <;> simp_all

theorem termStart?_local {first negative : Bool} {tokens atFactor : List Token}
    (h : Read.termStart? first tokens = some (negative, atFactor)) :
    ∃ sign : Option Sign, tokens = leaf sign ++ atFactor ∧
      (first = false → sign = none → ∃ t ∈ atFactor.head?, t.kind = .number ∧ t.isNegative = true) ∧
      ∀ more, more.head? = atFactor.head? →
        Read.termStart? first (leaf sign ++ more) = some (negative, more) := by
  cases tokens with
  | nil => cases h
  | cons t tokens =>
    simp only [Read.termStart?] at h
    split at h
    · rename_i hkind
      cases h
      refine ⟨some ⟨t, by simp [hkind]⟩, rfl, by simp, fun more _ => ?_⟩
      simp [Read.termStart?, hkind]
    · rename_i hkind
      cases h
      refine ⟨some ⟨t, by simp [hkind]⟩, rfl, by simp, fun more _ => ?_⟩
      simp [Read.termStart?, hkind]
    · rename_i hkind
      split at h
      · rename_i hfirst
        cases h
        refine ⟨none, rfl, by simp [hfirst], fun more hmore => ?_⟩
        obtain ⟨later, rfl⟩ := List.head?_eq_some_iff.mp hmore
        simp [Read.termStart?, hkind, hfirst]
      · cases h
    · rename_i hkind
      split at h
      · rename_i hfirst
        cases h
        refine ⟨none, rfl, ?_, fun more hmore => ?_⟩
        · intro hfalse _
          exact ⟨t, rfl, hkind, by simpa [hfalse] using hfirst⟩
        · obtain ⟨later, rfl⟩ := List.head?_eq_some_iff.mp hmore
          simp [Read.termStart?, hkind, hfirst]
      · cases h
    · cases h

/-- A term is read alike, whatever is left of the sum after it. -/
theorem term_reads {first negative : Bool} {tokens atFactor left : List Token} {term : Term K}
    (hs : Read.termStart? first tokens = some (negative, atFactor))
    (hf : Read.factor (Read.nextStart tokens) negative atFactor = .ok (term, left)) :
    ∃ sign f, Opens first sign f ∧ tokens = leaf sign ++ f.tokens ++ left ∧
      ∀ more, more.head? = left.head? → Read.terms first (leaf sign ++ f.tokens ++ more) =
        match Read.terms false more with
        | .error e => .error e
        | .ok (sum, rest) => .ok (term :: sum, rest) := by
  obtain ⟨sign, f, hopens, htokens, _⟩ := term_eq_ok hs hf
  obtain ⟨sign', htokens', _, hlocal⟩ := termStart?_local hs
  obtain ⟨before, rfl, hreads⟩ := factor_reads hf
  have hall : leaf sign ++ f.tokens ++ left = leaf sign' ++ before ++ left := by
    rw [List.append_assoc, List.append_assoc, ← htokens, ← htokens']
  have hsame := List.append_cancel_right hall
  refine ⟨sign, f, hopens, by rw [htokens, List.append_assoc], fun more hmore => ?_⟩
  have hhead : (before ++ more).head? = (before ++ left).head? := head?_append_congr hmore
  have hstart : Read.nextStart (leaf sign' ++ (before ++ more)) = Read.nextStart tokens := by
    rw [htokens']
    exact nextStart_congr (head?_append_congr hhead)
  have hfactor := hreads more hmore
  rw [hsame, List.append_assoc, Read.terms_eq, hlocal _ hhead]
  cases hothers : Read.terms (K := K) false more <;> simp [hstart, hfactor, hothers]

theorem terms_reads {first : Bool} {tokens rest : List Token} {sum : List (Term K)}
    (h : Read.terms first tokens = .ok (sum, rest)) :
    ∃ before, tokens = before ++ rest ∧ Reads (Read.terms first) before sum rest := by
  fun_induction Read.terms (K := K) first tokens generalizing sum with
  | case1 first tokens hs =>
    cases h
    exact ⟨[], rfl, fun more hmore => terms_of_none (termStart?_congr first hmore hs)⟩
  | case2 => cases h
  | case3 => cases h
  | case4 first tokens negative atFactor hs term left hf others last hothers ih =>
    cases h
    obtain ⟨before, rfl, hreads⟩ := ih hothers
    obtain ⟨sign, f, _, htokens, hterm⟩ := term_reads hs hf
    refine ⟨leaf sign ++ f.tokens ++ before, by simp [htokens], fun more hmore => ?_⟩
    have hmore' := hterm (before ++ more) (head?_append_congr hmore)
    rw [hreads more hmore] at hmore'
    rw [List.append_assoc, hmore']

/-- A factor that a reader of sums takes for the next term, with the sign before it. -/
abbrev Opening (first : Bool) : Type := { p : Option Sign × Factor // Opens first p.1 p.2 }

def Opening.tokens {first : Bool} (p : Opening first) : List Token := leaf p.val.1 ++ p.val.2.tokens

/-- What begins a factor begins a term, where the reader of sums goes on. -/
theorem begins_opening {first : Bool} {sign : Option Sign} {before rest : List Token}
    (hglued : first = false → sign = none →
      ∃ t ∈ (before ++ rest).head?, t.kind = .number ∧ t.isNegative = true)
    (h : Begins Factor.tokens before) :
    Begins (fun p : Opening first => p.tokens) (leaf sign ++ before) := by
  cases sign with
  | some sign =>
    exact h.within _ [] (by simp) fun f =>
      ⟨⟨(some sign, f), .inr (.inl rfl)⟩, by simp [Opening.tokens]⟩
  | none =>
    cases first with
    | true =>
      exact h.within [] [] (by simp) fun f => ⟨⟨(none, f), .inl rfl⟩, by simp [Opening.tokens]⟩
    | false =>
      obtain ⟨t, ht, hkind, hnegative⟩ := hglued rfl rfl
      cases before with
      | nil =>
        refine ⟨⟨(some someSign, .lone someName), .inr (.inl rfl)⟩, [someSign.val, someName.val],
          by simp, by simp [possible_completions _], rfl⟩
      | cons u before =>
        have hu : u = t := by simpa using ht
        subst hu
        obtain ⟨f, more, hne, hmore, hf⟩ := h
        have hf' : u :: (before ++ more) = f.tokens ++ [] := by rw [hf, List.append_nil]; rfl
        have hglued := isGlued_of_isNegative hf' hkind hnegative
        exact ⟨⟨(none, f), .inr (.inr hglued)⟩, more, hne, hmore, hf⟩

theorem term_faulty {first negative : Bool} {tokens atFactor : List Token} {e : ReadError}
    (hlegible : Legible tokens) (hs : Read.termStart? first tokens = some (negative, atFactor))
    (hf : (Read.factor (Read.nextStart tokens) negative atFactor :
      Except ReadError (Term K × List Token)) = .error e) :
    Faulty (Read.terms (K := K) first) (fun p : Opening first => p.tokens) tokens e := by
  obtain ⟨sign, htokens, hglued, hlocal⟩ := termStart?_local hs
  rw [htokens] at hlegible
  obtain ⟨before, rest, expected, rfl, he, hstops, hbegins⟩ := factor_faulty hlegible.right hf
  refine ⟨leaf sign ++ before, rest, expected, by simp [htokens], he, fun more hmore => ?_, ?_⟩
  · have hhead : (before ++ more).head? = (before ++ rest).head? := head?_append_congr hmore
    have hstart : Read.nextStart (leaf sign ++ (before ++ more)) = Read.nextStart tokens := by
      rw [htokens]
      exact nextStart_congr (head?_append_congr hhead)
    have hfactor := hstops more hmore
    rw [List.append_assoc, Read.terms_eq, hlocal _ hhead]
    simp only [hstart, hfactor]
  · exact begins_opening hglued hbegins

/-- A sum stops where what is left of it after a term does. -/
theorem stops_after_term {first : Bool} {front left : List Token} {term : Term K}
    (hterm : ∀ more, more.head? = left.head? → Read.terms first (front ++ more) =
      match Read.terms false more with
      | .error e => .error e
      | .ok (sum, rest) => .ok (term :: sum, rest))
    (before rest : List Token) (expected : Expected) (hleft : left = before ++ rest)
    (hstops : Stops (Read.terms (K := K) false) before expected rest) :
    Stops (Read.terms (K := K) first) (front ++ before) expected rest := by
  subst hleft
  intro more hmore
  have hmore' := hterm (before ++ more) (head?_append_congr hmore)
  rw [hstops more hmore] at hmore'
  rw [List.append_assoc, hmore']

theorem addends_faulty {tokens : List Token} {e : ReadError} (hlegible : Legible tokens)
    (h : (Read.terms false tokens : Except ReadError (List (Term K) × List Token)) = .error e) :
    Faulty (Read.terms (K := K) false) (fun as : List Addend => as.flatMap Addend.tokens) tokens
      e := by
  generalize hfirst : false = first at h
  fun_induction Read.terms (K := K) first tokens with
  | case1 => cases h
  | case2 first tokens negative atFactor hs fault hf =>
    cases h
    subst hfirst
    refine (term_faulty hlegible hs hf).within [] [] (by simp) (fun p => ?_)
      fun _ _ _ _ hstops => hstops
    obtain ⟨a, ha, _⟩ := exists_addend (K := K) p.property
    exact ⟨[a], by simp [ha, Opening.tokens]⟩
  | case3 first tokens negative atFactor hs term left hf fault hothers ih =>
    cases h
    subst hfirst
    obtain ⟨sign, f, hopens, htokens, hterm⟩ := term_reads hs hf
    rw [htokens] at hlegible ⊢
    refine (ih hlegible.right rfl hothers).within _ [] (by simp) (fun as => ?_)
      (stops_after_term hterm)
    obtain ⟨a, ha, _⟩ := exists_addend (K := K) hopens
    exact ⟨a :: as, by simp [ha]⟩
  | case4 => cases h

theorem sum_faulty {tokens : List Token} {e : ReadError} (hlegible : Legible tokens)
    (h : (Read.terms true tokens : Except ReadError (List (Term K) × List Token)) = .error e) :
    Faulty (Read.terms (K := K) true) Sum.tokens tokens e := by
  rw [Read.terms_eq] at h
  split at h
  · cases h
  · rename_i negative atFactor hs
    split at h
    · rename_i hf
      cases h
      exact (term_faulty hlegible hs hf).within [] [] (by simp)
        (fun p => ⟨⟨p.val.1, p.val.2, []⟩, by simp [Sum.tokens, Opening.tokens]⟩)
        fun _ _ _ _ hstops => hstops
    · rename_i term left hf
      split at h
      · rename_i hothers
        cases h
        obtain ⟨sign, f, _, htokens, hterm⟩ := term_reads hs hf
        rw [htokens] at hlegible ⊢
        exact (addends_faulty hlegible.right hothers).within _ [] (by simp)
          (fun as => ⟨⟨sign, f, as⟩, by simp [Sum.tokens]⟩) (stops_after_term hterm)
      · cases h

end LinProg.Grammar
