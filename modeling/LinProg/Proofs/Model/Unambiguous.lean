import LinProg.Proofs.Model.Grammar

/-!
# No two derivations spell the same tokens

Each part of a derivation can be told from what follows it, as long as nothing follows that could go
on the part. The tokens of a part then leave no choice for the derivation.
-/
namespace LinProg.Grammar

/-- Parts whose tokens can be told from what follows them, and that their tokens tell apart. -/
def Unambiguous {A : Type} (follow : List Token → Prop) (spell : A → List Token) : Prop :=
  ∀ a b r s, follow r → follow s → spell a ++ r = spell b ++ s → a = b ∧ r = s

namespace Unambiguous
variable {A B : Type} {f : A → List Token} {g : B → List Token} {follow next : List Token → Prop}

theorem leaf (kinds : List Token.Kind) :
    Unambiguous (fun _ => True) fun t : Leaf kinds => [t.val] := by
  intro a b r s _ _ h
  rw [List.singleton_append, List.singleton_append, List.cons.injEq] at h
  exact ⟨Subtype.ext h.1, h.2⟩

theorem mono (hf : Unambiguous follow f) (h : ∀ r, next r → follow r) : Unambiguous next f :=
  fun a b r s hr hs heq => hf a b r s (h r hr) (h s hs) heq

theorem append (hf : Unambiguous follow f) (hg : Unambiguous next g)
    (hnext : ∀ b r, next r → follow (g b ++ r)) :
    Unambiguous next fun ab : A × B => f ab.1 ++ g ab.2 := by
  intro ab cd r s hr hs h
  simp only [List.append_assoc] at h
  obtain ⟨h1, h⟩ := hf _ _ _ _ (hnext _ _ hr) (hnext _ _ hs) h
  obtain ⟨h2, h⟩ := hg _ _ _ _ hr hs h
  exact ⟨Prod.ext h1 h2, h⟩

theorem option (hf : Unambiguous follow f) (hfollow : ∀ r, next r → follow r)
    (hstop : ∀ a r s, next r → r ≠ f a ++ s) :
    Unambiguous next fun a : Option A => a.elim [] f := by
  intro a b r s hr hs h
  cases a with
  | none =>
    cases b with
    | none => exact ⟨rfl, h⟩
    | some b => exact absurd h (hstop b r s hr)
  | some a =>
    cases b with
    | none => exact absurd h.symm (hstop a s r hs)
    | some b =>
      obtain ⟨hab, h⟩ := hf a b r s (hfollow r hr) (hfollow s hs) h
      exact ⟨congrArg some hab, h⟩

theorem list (hf : Unambiguous follow f)
    (hfollow : ∀ (as : List A) (r : List Token), next r → follow (as.flatMap f ++ r))
    (hstop : ∀ a r s, next r → r ≠ f a ++ s) :
    Unambiguous next fun as : List A => as.flatMap f := by
  intro as bs r s hr hs h
  induction as generalizing bs with
  | nil =>
    cases bs with
    | nil => exact ⟨rfl, h⟩
    | cons b bs =>
      simp only [List.flatMap_cons, List.append_assoc] at h
      exact absurd h (hstop b r _ hr)
  | cons a as ih =>
    simp only [List.flatMap_cons, List.append_assoc] at h ih
    cases bs with
    | nil => exact absurd h.symm (hstop a s _ hs)
    | cons b bs =>
      simp only [List.flatMap_cons, List.append_assoc] at h
      obtain ⟨hab, h⟩ := hf a b _ _ (hfollow as r hr) (hfollow bs s hs) h
      obtain ⟨hrest, h⟩ := ih bs h
      exact ⟨by rw [hab, hrest], h⟩

end Unambiguous

/-- What comes next is nothing or a token that does not pass the test. -/
def NotNext (test : Token → Prop) (rest : List Token) : Prop := ∀ t ∈ rest.head?, ¬ test t

@[simp] theorem notNext_nil (test : Token → Prop) : NotNext test [] := by
  simp [NotNext]

@[simp] theorem notNext_cons (test : Token → Prop) (t : Token) (rest : List Token) :
    NotNext test (t :: rest) ↔ ¬ test t := by
  simp [NotNext]

theorem Leaf.kind_eq {kind : Token.Kind} (t : Leaf [kind]) : t.val.kind = kind :=
  List.mem_singleton.mp t.property

/-- A token that goes on a factor. -/
def GoesOnFactor (t : Token) : Prop := t.kind = .star ∨ t.kind = .ident

/-- A token that begins another term of a sum. -/
def BeginsAddend (t : Token) : Prop :=
  t.kind = .plus ∨ t.kind = .minus ∨ t.kind = .number ∧ t.isNegative = true

/-- A token that begins a sum or goes on one. -/
def BelongsToSum (t : Token) : Prop :=
  t.kind = .plus ∨ t.kind = .minus ∨ t.kind = .number ∨ t.kind = .star ∨ t.kind = .ident

theorem NotNext.imp {test weaker : Token → Prop} {rest : List Token} (h : NotNext test rest)
    (hw : ∀ t, weaker t → test t) : NotNext weaker rest :=
  fun t ht hweak => h t ht (hw t hweak)

theorem Leaf.sign_kind (t : Sign) : t.val.kind = .plus ∨ t.val.kind = .minus := by
  simpa using t.property

theorem unambiguous_leaf (kinds : List Token.Kind) :
    Unambiguous (NotNext fun t => t.kind ∈ kinds) fun t : Option (Leaf kinds) => leaf t := by
  refine (Unambiguous.leaf kinds).option (fun _ _ => trivial) fun a r s hr h => ?_
  rw [h] at hr
  exact hr a.val (by simp) a.property

namespace Factor

theorem not_goesOnFactor (star : Option (Leaf [.star])) (name : Name) {r : List Token}
    (hr : NotNext GoesOnFactor r) (s : List Token) : r ≠ leaf star ++ [name.val] ++ s := by
  rintro rfl
  cases star with
  | none => exact (notNext_cons ..).mp hr (.inr name.kind_eq)
  | some star => exact (notNext_cons ..).mp hr (.inl star.kind_eq)

theorem unambiguous_product :
    Unambiguous (NotNext GoesOnFactor)
      fun p : Number × Option (Leaf [.star]) × Name =>
        [p.1.val] ++ (leaf p.2.1 ++ [p.2.2.val]) := by
  have hpair := (unambiguous_leaf [.star]).append (Unambiguous.leaf [.ident])
    fun name r _ => by simp [name.kind_eq]
  exact ((Unambiguous.leaf _).append hpair fun _ _ _ => trivial).mono fun _ _ => trivial

theorem number_ne_name (number : Number) (name : Name) : number.val ≠ name.val := by
  intro h
  have hkind := number.kind_eq
  rw [h, name.kind_eq] at hkind
  exact Token.Kind.noConfusion hkind

theorem unambiguous : Unambiguous (NotNext GoesOnFactor) tokens := by
  intro f g r s hr hs h
  cases f with
  | constant n =>
    cases g with
    | constant m =>
      obtain ⟨hn, h⟩ := Unambiguous.leaf _ n m r s trivial trivial h
      exact ⟨congrArg constant hn, h⟩
    | product m star name =>
      exact absurd (List.cons.inj h).2 (not_goesOnFactor star name hr s)
    | lone name => exact absurd (List.cons.inj h).1 (number_ne_name n name)
  | product n star name =>
    cases g with
    | constant m =>
      exact absurd (List.cons.inj h).2.symm (not_goesOnFactor star name hs r)
    | product m star' name' =>
      obtain ⟨hf, hrest⟩ := unambiguous_product (n, star, name) (m, star', name') r s hr hs h
      cases hf
      exact ⟨rfl, hrest⟩
    | lone name' => exact absurd (List.cons.inj h).1 (number_ne_name n name')
  | lone name =>
    cases g with
    | constant m => exact absurd (List.cons.inj h).1.symm (number_ne_name m name)
    | product m star name' => exact absurd (List.cons.inj h).1.symm (number_ne_name m name)
    | lone name' =>
      obtain ⟨hn, h⟩ := Unambiguous.leaf _ name name' r s trivial trivial h
      exact ⟨congrArg lone hn, h⟩

/-- A factor begins with a number or with a name. -/
theorem tokens_eq_cons (f : Factor) : ∃ t rest, f.tokens = t :: rest ∧
    (t.kind = .number ∨ t.kind = .ident) ∧
      (f.isGlued = true → t.kind = .number ∧ t.isNegative) := by
  cases f with
  | constant n => exact ⟨n.val, [], rfl, .inl n.kind_eq, fun h => ⟨n.kind_eq, h⟩⟩
  | product n star name =>
    exact ⟨n.val, leaf star ++ [name.val], rfl, .inl n.kind_eq, fun h => ⟨n.kind_eq, h⟩⟩
  | lone name => exact ⟨name.val, [], rfl, .inr name.kind_eq, fun h => Bool.noConfusion h⟩

end Factor

namespace Addend

theorem tokens_eq_cons (a : Addend) : ∃ t rest, a.tokens = t :: rest ∧ BeginsAddend t := by
  cases a with
  | signed sign f =>
    refine ⟨sign.val, f.tokens, rfl, ?_⟩
    rcases sign.sign_kind with h | h
    · exact .inl h
    · exact .inr (.inl h)
  | glued f hf =>
    obtain ⟨t, rest, h, _, hglued⟩ := f.tokens_eq_cons
    exact ⟨t, rest, h, .inr (.inr (hglued hf))⟩

theorem sign_ne_glued (sign : Sign) (f : Factor) {r s : List Token} :
    sign.val :: r ≠ f.tokens ++ s := by
  obtain ⟨t, rest, h, hkind, _⟩ := f.tokens_eq_cons
  rw [h]
  intro heq
  have hsign := sign.sign_kind
  rw [(List.cons.inj heq).1] at hsign
  rcases hkind with hkind | hkind <;> simp [hkind] at hsign

theorem unambiguous : Unambiguous (NotNext GoesOnFactor) tokens := by
  intro a b r s hr hs h
  cases a with
  | signed sign f =>
    cases b with
    | signed sign' g =>
      obtain ⟨hsign, h⟩ := Unambiguous.leaf _ sign sign' _ _ trivial trivial h
      obtain ⟨hfactor, h⟩ := Factor.unambiguous f g r s hr hs h
      exact ⟨by rw [hsign, hfactor], h⟩
    | glued g _ => exact absurd h (sign_ne_glued sign g)
  | glued f _ =>
    cases b with
    | signed sign g => exact absurd h.symm (sign_ne_glued sign f)
    | glued g _ =>
      obtain ⟨hfactor, hrest⟩ := Factor.unambiguous f g r s hr hs h
      subst hfactor
      exact ⟨rfl, hrest⟩

end Addend

theorem goesOnFactor_of_beginsAddend {t : Token} (h : BeginsAddend t) : ¬ GoesOnFactor t := by
  rcases h with h | h | ⟨h, _⟩ <;> simp [GoesOnFactor, h]

/-- What may follow a sum may follow each of its terms, and so may the next term. -/
theorem notNext_flatMap (as : List Addend) {r : List Token} (hr : NotNext BelongsToSum r) :
    NotNext GoesOnFactor (as.flatMap Addend.tokens ++ r) := by
  cases as with
  | nil =>
    refine hr.imp fun t ht => ?_
    rcases ht with ht | ht <;> simp [BelongsToSum, ht]
  | cons a as =>
    obtain ⟨t, rest, h, hbegins⟩ := a.tokens_eq_cons
    simp [h, goesOnFactor_of_beginsAddend hbegins]

theorem Addend.ne_append {r : List Token} (hr : NotNext BelongsToSum r) (a : Addend)
    (s : List Token) : r ≠ a.tokens ++ s := by
  rintro rfl
  obtain ⟨t, rest, h, hbegins⟩ := a.tokens_eq_cons
  rw [h, List.cons_append, notNext_cons] at hr
  apply hr
  rcases hbegins with h | h | ⟨h, _⟩ <;> simp [BelongsToSum, h]

theorem unambiguous_addends :
    Unambiguous (NotNext BelongsToSum) fun as : List Addend => as.flatMap Addend.tokens :=
  Addend.unambiguous.list (fun as _ hr => notNext_flatMap as hr) fun a _ s hr => a.ne_append hr s

namespace Sum

theorem unambiguous : Unambiguous (NotNext BelongsToSum) tokens := by
  have hterms := Factor.unambiguous.append unambiguous_addends fun as _ hr => notNext_flatMap as hr
  have hsum := (unambiguous_leaf [.plus, .minus]).append hterms fun p r _ => by
    obtain ⟨t, rest, h, hkind, _⟩ := p.1.tokens_eq_cons
    rcases hkind with hkind | hkind <;> simp [h, hkind]
  intro a b r s hr hs h
  obtain ⟨hparts, hrest⟩ := hsum (a.sign, a.first, a.rest) (b.sign, b.first, b.rest) r s hr hs
    (by simpa [tokens] using h)
  cases a
  cases b
  simp_all

theorem tokens_eq_cons (s : Sum) : ∃ t rest, s.tokens = t :: rest ∧ BelongsToSum t := by
  obtain ⟨t, rest, h, hkind, _⟩ := s.first.tokens_eq_cons
  cases hsign : s.sign with
  | none =>
    refine ⟨t, rest ++ s.rest.flatMap Addend.tokens, by simp [tokens, hsign, h], ?_⟩
    rcases hkind with hkind | hkind <;> simp [BelongsToSum, hkind]
  | some sign =>
    refine ⟨sign.val, s.first.tokens ++ s.rest.flatMap Addend.tokens, by simp [tokens, hsign], ?_⟩
    rcases sign.sign_kind with hkind | hkind <;> simp [BelongsToSum, hkind]

end Sum

theorem unambiguous_sum : Unambiguous (NotNext BelongsToSum) sumTokens := by
  refine Sum.unambiguous.option (fun _ hr => hr) fun sum r s hr heq => ?_
  obtain ⟨t, rest, h, hbelongs⟩ := sum.tokens_eq_cons
  rw [heq, h, List.cons_append, notNext_cons] at hr
  exact hr hbelongs

/-- What comes next is no name with a colon after it. -/
def NotLabel (rest : List Token) : Prop :=
  ∀ t u more, rest = t :: u :: more → t.kind = .ident → u.kind ≠ .colon

theorem Leaf.relation_kind (t : Leaf [.le, .ge, .eq]) :
    t.val.kind = .le ∨ t.val.kind = .ge ∨ t.val.kind = .eq := by
  simpa using t.property

theorem Leaf.keyword_kind (t : Leaf [.max, .min]) : t.val.kind = .max ∨ t.val.kind = .min := by
  simpa using t.property

theorem notNext_relation (relation : Leaf [.le, .ge, .eq]) (rest : List Token) :
    NotNext BelongsToSum (relation.val :: rest) := by
  rw [notNext_cons]
  rcases relation.relation_kind with h | h | h <;> simp [BelongsToSum, h]

/-- A name at the start of a sum is followed by another term or by the relation. -/
theorem notLabel_sum (sum : Option Sum) (relation : Leaf [.le, .ge, .eq]) (rest : List Token) :
    NotLabel (sumTokens sum ++ relation.val :: rest) := by
  intro t u more h hname hcolon
  cases sum with
  | none =>
    have ht : relation.val = t := (List.cons.inj h).1
    rcases relation.relation_kind with hkind | hkind | hkind <;> simp [← ht, hkind] at hname
  | some sum =>
    obtain ⟨sign, first, addends⟩ := sum
    have hu : NotNext BelongsToSum (relation.val :: rest) := notNext_relation relation rest
    cases sign with
    | some sign =>
      have ht : sign.val = t := by simp [sumTokens, Sum.tokens] at h; exact h.1
      rcases sign.sign_kind with hkind | hkind <;> simp [← ht, hkind] at hname
    | none =>
      cases first with
      | constant number =>
        have ht : number.val = t := by simp [sumTokens, Sum.tokens, Factor.tokens] at h; exact h.1
        simp [← ht, number.kind_eq] at hname
      | product number star name =>
        have ht : number.val = t := by simp [sumTokens, Sum.tokens, Factor.tokens] at h; exact h.1
        simp [← ht, number.kind_eq] at hname
      | lone name =>
        simp only [sumTokens, Sum.tokens, Factor.tokens, Option.elim_some, leaf_none,
          List.nil_append, List.cons_append, List.cons.injEq] at h
        cases addends with
        | nil =>
          have hrel : relation.val = u := by simpa using (List.cons.inj h.2).1
          rcases relation.relation_kind with hkind | hkind | hkind <;>
            simp [← hrel, hkind] at hcolon
        | cons a addends =>
          obtain ⟨v, others, ha, hbegins⟩ := a.tokens_eq_cons
          have hv : v = u := by
            rw [List.flatMap_cons, ha] at h
            exact (List.cons.inj h.2).1
          rw [hv] at hbegins
          rcases hbegins with hkind | hkind | ⟨hkind, _⟩ <;> simp [hkind] at hcolon

theorem unambiguous_label : Unambiguous NotLabel labelTokens := by
  have hpair := (Unambiguous.leaf [.ident]).append (Unambiguous.leaf [.colon]) fun _ _ _ => trivial
  refine hpair.option (fun _ _ => trivial) fun label r s hr h => ?_
  exact hr label.1.val label.2.val s h label.1.kind_eq label.2.kind_eq

namespace Statement

/-- A constraint begins with its label, its sum or its relation, and with none of the words that
begin an objective. -/
theorem constraint_eq_cons (label : Option (Name × Leaf [.colon])) (sum : Option Sum)
    (relation : Leaf [.le, .ge, .eq]) (s : List Token) :
    ∃ t rest, labelTokens label ++ (sumTokens sum ++ relation.val :: s) = t :: rest ∧
      t.isSeparator = false ∧ ¬ (t.kind = .max ∨ t.kind = .min) := by
  cases label with
  | some label =>
    refine ⟨label.1.val, _, rfl, ?_⟩
    simp [Token.isSeparator, label.1.kind_eq]
  | none =>
    cases sum with
    | none =>
      refine ⟨relation.val, s, rfl, ?_⟩
      rcases relation.relation_kind with h | h | h <;> simp [Token.isSeparator, h]
    | some sum =>
      obtain ⟨t, rest, h, hbelongs⟩ := sum.tokens_eq_cons
      refine ⟨t, rest ++ relation.val :: s, by simp [labelTokens, sumTokens, h], ?_⟩
      rcases hbelongs with h | h | h | h | h <;> simp [Token.isSeparator, h]

theorem tokens_eq_cons (st : Statement) : ∃ t rest, st.tokens = t :: rest ∧
    t.isSeparator = false := by
  cases st with
  | objective keyword colon sum =>
    refine ⟨keyword.val, leaf colon ++ sumTokens sum, rfl, ?_⟩
    rcases keyword.keyword_kind with h | h <;> simp [Token.isSeparator, h]
  | constraint label sum relation sign rhs =>
    obtain ⟨t, rest, h, hsep, _⟩ := constraint_eq_cons label sum relation (leaf sign ++ [rhs.val])
    exact ⟨t, rest, by simpa [tokens] using h, hsep⟩

theorem keyword_ne_constraint (keyword : Leaf [.max, .min])
    (label : Option (Name × Leaf [.colon])) (sum : Option Sum) (relation : Leaf [.le, .ge, .eq])
    (r s : List Token) :
    keyword.val :: r ≠ labelTokens label ++ (sumTokens sum ++ relation.val :: s) := by
  intro h
  obtain ⟨t, rest, ht, _, hkind⟩ := constraint_eq_cons label sum relation s
  rw [ht] at h
  apply hkind
  rw [← (List.cons.inj h).1]
  exact keyword.keyword_kind

theorem separator_not_belongsToSum {t : Token} (h : t.isSeparator = true) : ¬ BelongsToSum t := by
  rw [Token.isSeparator, Bool.or_eq_true, beq_iff_eq, beq_iff_eq] at h
  rcases h with h | h <;> simp [BelongsToSum, h]

/-- Nothing or a separator comes next. -/
abbrev Ends (rest : List Token) : Prop := NotNext (fun t => t.isSeparator = false) rest

theorem notNext_of_ends {rest : List Token} (h : Ends rest) : NotNext BelongsToSum rest :=
  h.imp fun _ ht => Bool.eq_false_iff.mpr fun hsep => separator_not_belongsToSum hsep ht

theorem notNext_colon (sum : Option Sum) {rest : List Token} (h : Ends rest) :
    NotNext (fun t => t.kind = .colon) (sumTokens sum ++ rest) := by
  cases sum with
  | none =>
    refine h.imp fun t ht => ?_
    simp [Token.isSeparator, ht]
  | some sum =>
    obtain ⟨t, rest, h, hbelongs⟩ := sum.tokens_eq_cons
    rcases hbelongs with hkind | hkind | hkind | hkind | hkind <;> simp [sumTokens, h, hkind]

theorem unambiguous_objective : Unambiguous Ends
    fun o : Leaf [.max, .min] × Option (Leaf [.colon]) × Option Sum =>
      [o.1.val] ++ (leaf o.2.1 ++ sumTokens o.2.2) := by
  have hsum := (unambiguous_leaf [.colon]).append (unambiguous_sum.mono fun _ => notNext_of_ends)
    fun sum r hr => (notNext_colon sum hr).imp fun t ht => List.mem_singleton.mp ht
  exact (Unambiguous.leaf _).append hsum fun _ _ _ => trivial

theorem unambiguous_constraint : Unambiguous (fun _ => True)
    fun c : Option (Name × Leaf [.colon]) × Option Sum × Leaf [.le, .ge, .eq] × Option Sign ×
        Number =>
      labelTokens c.1 ++
        (sumTokens c.2.1 ++ ([c.2.2.1.val] ++ (leaf c.2.2.2.1 ++ [c.2.2.2.2.val]))) := by
  have hrhs := (unambiguous_leaf [.plus, .minus]).append (Unambiguous.leaf [.number])
    fun rhs r _ => by simp [rhs.kind_eq]
  have hrelation := (Unambiguous.leaf [.le, .ge, .eq]).append hrhs fun _ _ _ => trivial
  have hsum := unambiguous_sum.append hrelation fun p r _ => notNext_relation p.1 _
  refine unambiguous_label.append hsum fun p r _ => ?_
  have h := notLabel_sum p.1 p.2.1 (leaf p.2.2.1 ++ [p.2.2.2.val] ++ r)
  simpa using h

theorem unambiguous : Unambiguous Ends tokens := by
  intro a b r s hr hs h
  cases a with
  | objective keyword colon sum =>
    cases b with
    | objective keyword' colon' sum' =>
      obtain ⟨hparts, hrest⟩ :=
        unambiguous_objective (keyword, colon, sum) (keyword', colon', sum') r s hr hs h
      cases hparts
      exact ⟨rfl, hrest⟩
    | constraint label sum' relation sign rhs =>
      refine absurd h ?_
      simp only [tokens, List.cons_append, List.append_assoc]
      exact keyword_ne_constraint keyword label sum' relation _ _
  | constraint label sum relation sign rhs =>
    cases b with
    | objective keyword colon sum' =>
      refine absurd h.symm ?_
      simp only [tokens, List.cons_append, List.append_assoc]
      exact keyword_ne_constraint keyword label sum relation _ _
    | constraint label' sum' relation' sign' rhs' =>
      obtain ⟨hparts, hrest⟩ := unambiguous_constraint (label, sum, relation, sign, rhs)
        (label', sum', relation', sign', rhs') r s trivial trivial (by simpa [tokens] using h)
      cases hparts
      exact ⟨rfl, hrest⟩

end Statement

theorem Leaf.isSeparator (t : Separator) : t.val.isSeparator = true := by
  have h := t.property
  rw [List.mem_cons, List.mem_singleton] at h
  rcases h with h | h <;> simp [Token.isSeparator, h]

theorem isSeparator_of_mem (leaves : List Separator) {t : Token} (h : t ∈ separators leaves) :
    t.isSeparator = true := by
  obtain ⟨s, _, hs⟩ := List.mem_flatMap.mp h
  rw [List.mem_singleton.mp hs]
  exact s.isSeparator

theorem unambiguous_separators :
    Unambiguous (NotNext fun t => t.isSeparator = true) separators := by
  refine (Unambiguous.leaf [.newline, .semicolon]).list (fun _ _ _ => trivial) fun a r s hr h => ?_
  rw [h] at hr
  exact (notNext_cons ..).mp hr a.isSeparator

theorem Statement.notNext_separator (st : Statement) (r : List Token) :
    NotNext (fun t => t.isSeparator = true) (st.tokens ++ r) := by
  obtain ⟨t, rest, h, hsep⟩ := st.tokens_eq_cons
  simp [h, hsep]

namespace Successor

theorem unambiguous : Unambiguous Statement.Ends tokens := by
  have hothers := unambiguous_separators.append Statement.unambiguous
    fun st r _ => st.notNext_separator r
  have hall := (Unambiguous.leaf [.newline, .semicolon]).append hothers fun _ _ _ => trivial
  intro a b r s hr hs h
  obtain ⟨hparts, hrest⟩ := hall (a.separator, a.others, a.statement)
    (b.separator, b.others, b.statement) r s hr hs (by simpa [tokens] using h)
  cases a
  cases b
  simp_all

theorem ends_flatMap (as : List Successor) {r : List Token} (hr : ∀ t ∈ r, t.isSeparator = true) :
    Statement.Ends (as.flatMap tokens ++ r) := by
  cases as with
  | nil =>
    intro t ht
    simp [hr t (List.mem_of_mem_head? ht)]
  | cons a as => simp [tokens, a.separator.isSeparator]

/-- A list of separators holds no statement. -/
theorem ne_append {r : List Token} (hr : ∀ t ∈ r, t.isSeparator = true) (a : Successor)
    (s : List Token) : r ≠ a.tokens ++ s := by
  rintro rfl
  obtain ⟨t, rest, h, hsep⟩ := a.statement.tokens_eq_cons
  have ht := hr t (by simp [tokens, h])
  rw [hsep] at ht
  exact Bool.false_ne_true ht

end Successor

theorem Body.unambiguous : Unambiguous (· = []) Body.tokens := by
  have hrest : Unambiguous (fun r => ∀ t ∈ r, t.isSeparator = true)
      fun as : List Successor => as.flatMap Successor.tokens :=
    Successor.unambiguous.list (fun as _ hr => Successor.ends_flatMap as hr)
      fun a _ s hr => a.ne_append hr s
  have hseparators : Unambiguous (· = []) separators :=
    unambiguous_separators.mono fun r hr => by simp [hr]
  have htrailing := hrest.append hseparators
    fun trailing r hr t ht => isSeparator_of_mem trailing (by simpa [hr] using ht)
  have hall := Statement.unambiguous.append htrailing fun p r hr => by
    rw [List.append_assoc]
    refine Successor.ends_flatMap p.1 fun t ht => ?_
    exact isSeparator_of_mem p.2 (by simpa [hr] using ht)
  intro a b r s hr hs h
  obtain ⟨hparts, heq⟩ := hall (a.first, a.rest, a.trailing) (b.first, b.rest, b.trailing) r s hr hs
    (by simpa [tokens] using h)
  cases a
  cases b
  simp_all

theorem Body.notNext_separator (b : Body) (r : List Token) :
    NotNext (fun t => t.isSeparator = true) (b.tokens ++ r) := by
  have h :=
    b.first.notNext_separator (b.rest.flatMap Successor.tokens ++ separators b.trailing ++ r)
  simpa [tokens] using h

end LinProg.Grammar
