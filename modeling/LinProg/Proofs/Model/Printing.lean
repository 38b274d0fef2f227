import LinProg.CommandLine.Run
import LinProg.Proofs.Model.Spelling

/-!
# How problems are printed

A problem whose numbers have at most four places is printed as the words of a derivation. Terms with
the coefficient zero are left out, units have no factor, a row of zeros is the constant zero, and
the sign of the first term of a sum is part of its number, if there is one.
-/
namespace LinProg

/-- All numbers of the problem have at most four places. -/
structure Problem.HasFourPlaces (p : Problem ℚ) : Prop where
  objective : ∀ x ∈ p.objective.coefficients, LinProg.HasFourPlaces x
  coefficients : ∀ c ∈ p.constraints, ∀ x ∈ c.coefficients, LinProg.HasFourPlaces x
  rhs : ∀ c ∈ p.constraints, LinProg.HasFourPlaces c.rhs

namespace Display

/-- A term of a sum that is shown: a coefficient and its variable. -/
abbrev Shown : Type := ℚ × String

/-- The terms of a row that are shown. -/
def shown (coefficients : List ℚ) (names : List String) : List Shown :=
  (coefficients.zip names).filter fun t => t.1 ≠ 0

def factorChars (c : ℚ) : List Char := if |c| = 1 then [] else magnitudeText c

/-- The first term of a sum. -/
def leadText (t : Shown) : List Char :=
  Numeral.signText (decide (t.1 < 0)) ++ (factorChars t.1 ++ t.2.toList)

/-- A later term of a sum. -/
def addendText (t : Shown) : List Char :=
  ' ' :: (if t.1 < 0 then '-' else '+') :: ' ' :: (factorChars t.1 ++ t.2.toList)

def sumText : List Shown → List Char
  | [] => ['0']
  | t :: ts => leadText t ++ ts.flatMap addendText

/-- A number with four places is as good as one only if it is one. -/
theorem abs_sub_one_lt_iff {c : ℚ} (h : HasFourPlaces c) :
    |(|c| - 1)| < (unitTolerance : ℚ) ↔ |c| = 1 := by
  constructor
  · intro hlt
    obtain ⟨n, hn⟩ := h.abs
    have hunits : |((n - 10000 : ℤ) : ℚ)| < 1 := by
      have hscaled : ((n - 10000 : ℤ) : ℚ) = (|c| - 1) * 10000 := by
        rw [hn]
        push_cast
        field_simp
      rw [hscaled, abs_mul]
      simp only [unitTolerance, Scalar.ofDecimal_exact] at hlt
      norm_num at hlt ⊢
      linarith
    have hzero : n - 10000 = 0 := Int.abs_lt_one_iff.mp (by exact_mod_cast hunits)
    have hn' : n = 10000 := by omega
    rw [hn, hn']
    norm_num
  · intro heq
    simp [heq, unitTolerance]

theorem toList_factorText {c : ℚ} (h : HasFourPlaces c) :
    (factorText c).toList = factorChars c := by
  have htext : (factorText c).toList =
      if |(|c| - 1)| < (unitTolerance : ℚ) then [] else (short |c|).toList := by
    simp only [factorText, Scalar.abs_exact]
    split <;> rfl
  have hshort : (short |c|).toList = magnitudeText c := by
    rw [toList_short h.abs, signedText_abs h]
  simp only [htext, abs_sub_one_lt_iff h, hshort, factorChars]

theorem toList_termText (atStart : Bool) {t : Shown} (h : HasFourPlaces t.1) :
    (termText atStart t.1 t.2).toList = if atStart then leadText t else addendText t := by
  cases atStart <;> by_cases hneg : t.1 < 0 <;>
    simp [termText, termSign, toList_factorText h, leadText, addendText, hneg, Numeral.signText]

theorem toList_termsText_false {ts : List Shown} (h : ∀ t ∈ ts, HasFourPlaces t.1) :
    (termsText false ts).toList = (ts.filter fun t => t.1 ≠ 0).flatMap addendText := by
  induction ts with
  | nil => rfl
  | cons t ts ih =>
    have hrest := ih fun u hu => h u (List.mem_cons_of_mem t hu)
    have hterm := toList_termText false (h t List.mem_cons_self)
    by_cases hzero : t.1 = 0
    · simpa [termsText, hzero] using hrest
    · simp_all [termsText]

theorem leadText_ne_nil {t : Shown} (h : t.2 ≠ "") : leadText t ≠ [] := by
  simp [leadText, h]

/-- The sum of the terms is written without a sign or space before it, if there are any. -/
theorem toList_termsText_true {ts : List Shown} (h : ∀ t ∈ ts, HasFourPlaces t.1)
    (hnames : ∀ t ∈ ts, t.2 ≠ "") :
    (termsText true ts).toList = match ts.filter fun t => t.1 ≠ 0 with
      | [] => []
      | t :: ts => leadText t ++ ts.flatMap addendText := by
  induction ts with
  | nil => rfl
  | cons t ts ih =>
    have hrest := ih (fun u hu => h u (List.mem_cons_of_mem t hu))
      fun u hu => hnames u (List.mem_cons_of_mem t hu)
    have hlater := toList_termsText_false fun u hu => h u (List.mem_cons_of_mem t hu)
    have hterm := toList_termText true (h t List.mem_cons_self)
    by_cases hzero : t.1 = 0
    · simpa [termsText, hzero] using hrest
    · have hempty : (termText true t.1 t.2).isEmpty = false := by
        have hlead := leadText_ne_nil (hnames t List.mem_cons_self)
        rw [Bool.eq_false_iff, ne_eq, String.isEmpty_iff, ← String.toList_eq_nil_iff, hterm]
        exact hlead
      have hfilter := @List.filter_cons_of_pos _ (fun t : Shown => decide (t.1 ≠ 0)) t ts
        (by simpa using hzero)
      simp only [termsText, beq_iff_eq, if_neg hzero, hempty, Bool.and_false, String.toList_append,
        hterm, if_true, hlater, hfilter]

theorem toList_linearExpression {coefficients : List ℚ} {names : List String}
    (h : ∀ x ∈ coefficients, HasFourPlaces x) (hnames : ∀ v ∈ names, v ≠ "") :
    (linearExpression coefficients names).toList = sumText (shown coefficients names) := by
  have hterms := @toList_termsText_true (coefficients.zip names)
    (fun t ht => h t.1 (List.of_mem_zip ht).1) fun t ht => hnames t.2 (List.of_mem_zip ht).2
  rw [← shown] at hterms
  have hmem (t : Shown) (ht : t ∈ shown coefficients names) : t.2 ≠ "" :=
    hnames t.2 (List.of_mem_zip (List.mem_of_mem_filter ht)).2
  have htext : (linearExpression coefficients names).toList =
      if (termsText true (coefficients.zip names)).toList = [] then ['0']
      else (termsText true (coefficients.zip names)).toList := by
    simp only [linearExpression, String.toList_eq_nil_iff]
    split <;> rfl
  rw [htext, hterms]
  cases hshown : shown coefficients names with
  | nil => rfl
  | cons t ts =>
    have hlead := leadText_ne_nil (hmem t (hshown ▸ List.mem_cons_self))
    rw [if_neg (by simp [hlead]), sumText]

end Display

namespace Grammar
open Display

def nameLeaf (v : String) : Name := ⟨⟨.ident, ⟨0, 0⟩, v.toList⟩, by simp⟩

def numberLeaf (text : List Char) : Number := ⟨⟨.number, ⟨0, 0⟩, text⟩, by simp⟩

def signLeaf (negative : Bool) : Sign :=
  if negative then ⟨⟨.minus, ⟨0, 0⟩, ['-']⟩, by simp⟩ else ⟨⟨.plus, ⟨0, 0⟩, ['+']⟩, by simp⟩

def keywordLeaf : Sense → Leaf [.max, .min]
  | .max => ⟨⟨.max, ⟨0, 0⟩, ['m', 'a', 'x']⟩, by simp⟩
  | .min => ⟨⟨.min, ⟨0, 0⟩, ['m', 'i', 'n']⟩, by simp⟩

def relationLeaf : Relation → Leaf [.le, .ge, .eq]
  | .le => ⟨⟨.le, ⟨0, 0⟩, ['≤']⟩, by simp⟩
  | .ge => ⟨⟨.ge, ⟨0, 0⟩, ['≥']⟩, by simp⟩
  | .eq => ⟨⟨.eq, ⟨0, 0⟩, ['=']⟩, by simp⟩

def colonLeaf : Leaf [.colon] := ⟨⟨.colon, ⟨0, 0⟩, [':']⟩, by simp⟩

def newlineLeaf : Separator := ⟨⟨.newline, ⟨0, 0⟩, ['\n']⟩, by simp⟩

@[simp] theorem word_nameLeaf (v : String) : (nameLeaf v).val.word = (.ident, v.toList) := rfl

@[simp] theorem word_numberLeaf (text : List Char) :
    (numberLeaf text).val.word = (.number, text) := rfl

@[simp] theorem word_colon : colonLeaf.val.word = (.colon, [':']) := rfl

@[simp] theorem word_newline : newlineLeaf.val.word = (.newline, ['\n']) := rfl

@[simp] theorem word_minus : (signLeaf true).val.word = (.minus, ['-']) := rfl

@[simp] theorem word_plus : (signLeaf false).val.word = (.plus, ['+']) := rfl

/-- A shown term, with the text of its number unless it is a unit. -/
def factorOf (text : List Char) (t : Shown) : Factor :=
  if |t.1| = 1 then .lone (nameLeaf t.2) else .product (numberLeaf text) none (nameLeaf t.2)

def addendOf (t : Shown) : Addend :=
  .signed (signLeaf (decide (t.1 < 0))) (factorOf (magnitudeText t.1) t)

/-- The sum that is shown. The sign of its first term is part of the number, if there is one. -/
def sumOf : List Shown → Sum
  | [] => ⟨none, .constant (numberLeaf ['0']), []⟩
  | t :: ts =>
      ⟨if |t.1| = 1 ∧ t.1 < 0 then some (signLeaf true) else none, factorOf (signedText t.1) t,
        ts.map addendOf⟩

def printedObjective (p : Problem ℚ) : Statement :=
  .objective (keywordLeaf p.objective.sense) (some colonLeaf)
    (some (sumOf (shown p.objective.coefficients p.names)))

def printedConstraint (names : List String) (c : Constraint ℚ) : Statement :=
  .constraint (some (nameLeaf c.name, colonLeaf)) (some (sumOf (shown c.coefficients names)))
    (relationLeaf c.relation) none (numberLeaf (signedText c.rhs))

/-- The derivation of the text that a problem is printed as. -/
def printed (p : Problem ℚ) : Model :=
  let line (c : Constraint ℚ) : Successor := ⟨newlineLeaf, [], printedConstraint p.names c⟩
  ⟨[], some ⟨printedObjective p, p.constraints.map line, [newlineLeaf]⟩⟩

variable {more : List Char} {words : List (Token.Kind × List Char)}

theorem spells_name {v : String} (hv : IsName v.toList) (hmore : Breaks more)
    (h : Spells more words) :
    Spells (v.toList ++ more) ((nameLeaf v).val.word :: words) :=
  Spells.name hv (hmore.head (by decide)) h

theorem spells_signed (x : ℚ) (hmore : ∀ c ∈ more.head?, c.isDigit = false ∧ c ≠ '.')
    (h : Spells more words) : Spells (signedText x ++ more) ((.number, signedText x) :: words) := by
  have hdecimal := isDecimal_magnitudeText x
  by_cases hneg : x < 0
  · have hnumber := Spells.negative hdecimal hmore h
    simpa [signedText, hneg, Numeral.signText] using hnumber
  · have hnumber := Spells.number hdecimal hmore h
    simpa [signedText, hneg, Numeral.signText] using hnumber

theorem spells_factor {t : Shown} (hv : IsName t.2.toList) (hmore : Breaks more)
    (h : Spells more words) :
    Spells (factorChars t.1 ++ (t.2.toList ++ more))
      ((factorOf (magnitudeText t.1) t).tokens.map Token.word ++ words) := by
  have hname := spells_name hv hmore h
  by_cases hunit : |t.1| = 1
  · simpa [factorChars, factorOf, hunit, Factor.tokens] using hname
  · have hnumber := Spells.number (isDecimal_magnitudeText t.1) (hv.ends_number more) hname
    simpa [factorChars, factorOf, hunit, Factor.tokens] using hnumber

theorem spells_addend {t : Shown} (hv : IsName t.2.toList) (hmore : Breaks more)
    (h : Spells more words) :
    Spells (addendText t ++ more) ((addendOf t).tokens.map Token.word ++ words) := by
  have hfactor := (spells_factor hv hmore h).space
  by_cases hneg : t.1 < 0
  · have hsign := (Spells.mark '-' .minus rfl (by simp) rfl hfactor).space
    simpa [addendText, addendOf, hneg, Addend.tokens] using hsign
  · have hsign := (Spells.mark '+' .plus rfl (by simp) rfl hfactor).space
    simpa [addendText, addendOf, hneg, Addend.tokens] using hsign

theorem breaks_addends {ts : List Shown} (hmore : Breaks more) :
    Breaks (ts.flatMap addendText ++ more) := by
  cases ts with
  | nil => exact hmore
  | cons t ts => exact (breaks_cons ..).mpr rfl

theorem spells_addends {ts : List Shown} (hnames : ∀ t ∈ ts, IsName t.2.toList)
    (hmore : Breaks more) (h : Spells more words) :
    Spells (ts.flatMap addendText ++ more)
      (((ts.map addendOf).flatMap Addend.tokens).map Token.word ++ words) := by
  induction ts with
  | nil => exact h
  | cons t ts ih =>
    have hrest := ih fun u hu => hnames u (List.mem_cons_of_mem t hu)
    have hfirst := spells_addend (hnames t List.mem_cons_self) (breaks_addends hmore) hrest
    simpa using hfirst

/-- The minus sign before a unit is a token by itself, and that before a number is not. -/
theorem spells_lead {t : Shown} (hv : IsName t.2.toList) (hmore : Breaks more)
    (h : Spells more words) :
    Spells (leadText t ++ more)
      ((leaf (sumOf [t]).sign ++ (sumOf [t]).first.tokens).map Token.word ++ words) := by
  have hname := spells_name hv hmore h
  have hends := hv.ends_number more
  by_cases hunit : |t.1| = 1
  · by_cases hneg : t.1 < 0
    · have hminus : Lexeme.ofChars '-' (t.2.toList ++ more) = ⟨.minus, [], t.2.toList ++ more⟩ := by
        have hdigit : (t.2.toList ++ more).head?.any Char.isDigit = false := by
          cases hhead : (t.2.toList ++ more).head? with
          | none => rfl
          | some c => exact (hends c hhead).1
        show Lexeme.ofMinus _ = _
        rw [Lexeme.ofMinus, hdigit]
        rfl
      have hsign := Spells.mark '-' .minus rfl (by simp) hminus hname
      simpa [leadText, Numeral.signText, factorChars, sumOf, factorOf, hunit, hneg, Factor.tokens]
        using hsign
    · simpa [leadText, Numeral.signText, factorChars, sumOf, factorOf, hunit, hneg, Factor.tokens]
        using hname
  · have hnumber := spells_signed t.1 hends hname
    simpa [leadText, signedText, factorChars, sumOf, factorOf, hunit, Factor.tokens] using hnumber

theorem spells_sum {ts : List Shown} (hnames : ∀ t ∈ ts, IsName t.2.toList) (hmore : Breaks more)
    (h : Spells more words) :
    Spells (sumText ts ++ more) ((sumOf ts).tokens.map Token.word ++ words) := by
  cases ts with
  | nil =>
    have hzero : IsDecimal ['0'] := .whole ⟨by simp, by simp⟩
    exact Spells.number hzero hmore.ends_number h
  | cons t ts =>
    have haddends := spells_addends (fun u hu => hnames u (List.mem_cons_of_mem t hu)) hmore h
    have hlead := spells_lead (hnames t List.mem_cons_self) (breaks_addends hmore) haddends
    simpa [sumText, sumOf, Sum.tokens] using hlead

def goalText (p : Problem ℚ) : List Char :=
  p.objective.sense.name.toList ++ ':' :: ' ' ::
    sumText (shown p.objective.coefficients p.names)

def lineText (names : List String) (c : Constraint ℚ) : List Char :=
  c.name.toList ++ ':' :: ' ' :: (sumText (shown c.coefficients names) ++
    ' ' :: (c.relation.symbol.toList ++ ' ' :: signedText c.rhs))

theorem mem_shown {coefficients : List ℚ} {names : List String} {t : Shown}
    (h : t ∈ shown coefficients names) : t.1 ∈ coefficients ∧ t.2 ∈ names :=
  List.of_mem_zip (List.mem_of_mem_filter h)

theorem spells_keyword (sense : Sense) (hmore : ∀ c ∈ more.head?, Text.inWord c = false)
    (h : Spells more words) :
    Spells (sense.name.toList ++ more) ((keywordLeaf sense).val.word :: words) := by
  have hword (text : List Char) (hall : ('m' :: text).all Text.inWord = true) :
      IsWord ('m' :: text) := ⟨⟨'m', rfl, rfl⟩, List.all_eq_true.mp hall⟩
  cases sense with
  | max => exact Spells.keyword (hword ['a', 'x'] (by decide)) hmore h
  | min => exact Spells.keyword (hword ['i', 'n'] (by decide)) hmore h

theorem spells_relation (r : Relation) (h : Spells more words) :
    Spells (r.symbol.toList ++ ' ' :: more) ((relationLeaf r).val.word :: words) := by
  cases r with
  | le => exact Spells.mark '≤' .le (by decide) (by simp) (Lexeme.ofChars_mark (by simp) _) h.space
  | ge => exact Spells.mark '≥' .ge (by decide) (by simp) (Lexeme.ofChars_mark (by simp) _) h.space
  | eq => exact Spells.mark '=' .eq rfl (by simp) rfl h.space

/-- The line of the objective, before its end. -/
theorem spells_objective {p : Problem ℚ} (hnames : ∀ v ∈ p.names, IsName v.toList)
    (hmore : Breaks more) (h : Spells more words) :
    Spells (goalText p ++ more) ((printedObjective p).tokens.map Token.word ++ words) := by
  have hshown (t : Shown) (ht : t ∈ shown p.objective.coefficients p.names) : IsName t.2.toList :=
    hnames t.2 (mem_shown ht).2
  have hsum := spells_sum hshown hmore h
  have hcolon := Spells.mark ':' .colon rfl (by simp) rfl hsum.space
  have hkeyword := spells_keyword p.objective.sense (by simp; decide) hcolon
  simpa [goalText, printedObjective, Statement.tokens, sumTokens] using hkeyword

theorem spells_constraint {names : List String} (hnames : ∀ v ∈ names, IsName v.toList)
    {c : Constraint ℚ} (hc : IsName c.name.toList) (hmore : Breaks more) (h : Spells more words) :
    Spells (lineText names c ++ more)
      ((printedConstraint names c).tokens.map Token.word ++ words) := by
  have hrelation := (spells_relation c.relation (spells_signed c.rhs hmore.ends_number h)).space
  have hshown (t : Shown) (ht : t ∈ shown c.coefficients names) : IsName t.2.toList :=
    hnames t.2 (mem_shown ht).2
  have hsum := spells_sum hshown ((breaks_cons ..).mpr rfl) hrelation
  have hcolon := Spells.mark ':' .colon rfl (by simp) rfl hsum.space
  have hname := Spells.name hc (by simp; decide) hcolon
  simpa [lineText, printedConstraint, Statement.tokens, sumTokens, labelTokens] using hname

theorem spells_newline (h : Spells more words) :
    Spells ('\n' :: more) ((.newline, ['\n']) :: words) :=
  Spells.mark '\n' .newline rfl (by simp) (Lexeme.ofChars_mark (by simp) more) h

/-- The end of a line, and further lines with their ends. -/
theorem spells_lines {names : List String} (hnames : ∀ v ∈ names, IsName v.toList)
    {cs : List (Constraint ℚ)} (hcs : ∀ c ∈ cs, IsName c.name.toList) :
    Spells ('\n' :: cs.flatMap fun c => lineText names c ++ ['\n'])
      (((cs.map fun c => (⟨newlineLeaf, [], printedConstraint names c⟩ : Successor)).flatMap
        Successor.tokens ++ [newlineLeaf.val]).map Token.word) := by
  induction cs with
  | nil => exact spells_newline .nil
  | cons c cs ih =>
    have hrest := ih fun d hd => hcs d (List.mem_cons_of_mem c hd)
    have hline := spells_constraint hnames (hcs c List.mem_cons_self) ((breaks_cons ..).mpr rfl)
      hrest
    have hnewline := spells_newline hline
    simpa [Successor.tokens, separators] using hnewline

theorem toList_problemText {p : Problem ℚ} (hnames : ∀ v ∈ p.names, v ≠ "")
    (hplaces : p.HasFourPlaces) : (CommandLine.problemText p).toList =
      goalText p ++ '\n' :: p.constraints.flatMap fun c => lineText p.names c ++ ['\n'] := by
  have hlines : (p.constraints.flatMap fun c => lineText p.names c ++ ['\n']) =
      p.constraints.flatMap fun c => (c.name ++ ": " ++
        linearExpression c.coefficients p.names ++ " " ++ c.relation.symbol ++ " " ++
          short c.rhs ++ "\n").toList := by
    refine List.flatMap_congr fun c hc => ?_
    simp [lineText, toList_linearExpression (hplaces.coefficients c hc) hnames,
      toList_short (hplaces.rhs c hc)]
  simp [CommandLine.problemText, String.toList_append, String.toList_join, hlines, goalText,
    toList_linearExpression hplaces.objective hnames, List.flatMap_map]

/-- The text of a problem is spelled as its derivation. -/
theorem words_problemText {p : Problem ℚ} (hname : p.Nameable) (hplaces : p.HasFourPlaces) :
    (Token.significant (CommandLine.problemText p).toList).map Token.word =
      (printed p).tokens.map Token.word := by
  have hne (v : String) (hv : v ∈ p.names) : v ≠ "" := by
    rintro rfl
    obtain ⟨⟨⟨c, hc, _⟩, _⟩, _⟩ := hname.isName _ hv
    simp at hc
  have hlines := spells_lines hname.isName fun c hc =>
    hname.isName_constraint _ (List.mem_map_of_mem hc)
  have hall := spells_objective hname.isName ((breaks_cons ..).mpr rfl) hlines
  rw [toList_problemText hne hplaces, Token.significant, hall.map_word]
  simp [printed, Model.tokens, Body.tokens, separators]

end Grammar
end LinProg
