import LinProg.Decimal.Literal
import LinProg.Model.Scan
import Mathlib.Data.List.TakeDrop

/-!
# What the tokens of a text hold

Every token of the kind of numbers holds a literal that has a value, and no token of a text stands
for its end. Readers of a text need no care for either.
-/
namespace LinProg

namespace Literal
variable {K : Type} [Scalar K]

theorem takeWhile_isDigit {digits : List Char} (h : ∀ c ∈ digits, c.isDigit = true)
    (rest : List Char) :
    (digits ++ rest).takeWhile Char.isDigit = digits ++ rest.takeWhile Char.isDigit :=
  List.takeWhile_append_of_pos h

theorem dropWhile_isDigit {digits : List Char} (h : ∀ c ∈ digits, c.isDigit = true)
    (rest : List Char) :
    (digits ++ rest).dropWhile Char.isDigit = rest.dropWhile Char.isDigit :=
  List.dropWhile_append_of_pos h

theorem unsigned?_digits {whole : List Char} (hne : whole ≠ [])
    (h : ∀ c ∈ whole, c.isDigit = true) :
    unsigned? whole = some (Scalar.ofDecimal (digitsValue whole) 0 : K) := by
  have htake := takeWhile_isDigit h []
  have hdrop := dropWhile_isDigit h []
  rw [List.append_nil] at htake hdrop
  simp [unsigned?, List.span_eq_takeWhile_dropWhile, htake, hdrop, hne]

theorem unsigned?_fraction {whole part : List Char} (hne : whole ≠ []) (hpart : part ≠ [])
    (h : ∀ c ∈ whole, c.isDigit = true) (hdigits : ∀ c ∈ part, c.isDigit = true) :
    unsigned? (whole ++ '.' :: part) =
      some (Scalar.ofDecimal (digitsValue (whole ++ part)) part.length : K) := by
  have htake := takeWhile_isDigit h ('.' :: part)
  have hdrop := dropWhile_isDigit h ('.' :: part)
  have hall : part.all Char.isDigit = true := List.all_eq_true.mpr hdigits
  simp [unsigned?, List.span_eq_takeWhile_dropWhile, htake, hdrop, hne, isDigits, hpart, hall]

/-- The text is a literal, whatever the numbers are. -/
def HasValue (text : List Char) : Prop :=
  ∀ (K : Type) [Scalar K], ∃ v : K, value? text = some v

end Literal

namespace Lexeme
variable {K : Type} [Scalar K]

theorem numberBody_cons {d : Char} (hd : d.isDigit = true) (text : List Char) :
    (numberBody (d :: text)).1 = d :: (numberBody text).1 := by
  unfold numberBody
  rw [List.takeWhile_cons_of_pos hd, List.dropWhile_cons_of_pos hd]
  split <;> try split
  all_goals simp_all

/-- The point of a fraction and its digits, if the text begins with these, and the characters after
them. -/
def fraction : List Char → List Char × List Char
  | '.' :: d :: rest =>
      if d.isDigit then
        ('.' :: d :: rest.takeWhile Char.isDigit, rest.dropWhile Char.isDigit)
      else ([], '.' :: d :: rest)
  | rest => ([], rest)

def BeginsFraction (text : List Char) : Prop :=
  ∃ d rest, text = '.' :: d :: rest ∧ d.isDigit = true

theorem fraction_cons_cons {d : Char} (hd : d.isDigit = true) (rest : List Char) :
    fraction ('.' :: d :: rest) =
      ('.' :: d :: rest.takeWhile Char.isDigit, rest.dropWhile Char.isDigit) := if_pos hd

theorem fraction_of_not {text : List Char} (h : ¬ BeginsFraction text) :
    fraction text = ([], text) := by
  unfold fraction
  split
  · rename_i d rest
    exact if_neg fun hd => h ⟨d, rest, rfl, hd⟩
  · rfl

/-- A number goes on with digits and then with a fraction. -/
theorem numberBody_eq (text : List Char) :
    numberBody text =
      (text.takeWhile Char.isDigit ++ (fraction (text.dropWhile Char.isDigit)).1,
        (fraction (text.dropWhile Char.isDigit)).2) := by
  unfold numberBody
  split
  · rename_i d rest hrest
    rw [hrest]
    cases hd : d.isDigit <;> simp [fraction, hd]
  · rename_i hrest
    have hnot : ¬ BeginsFraction (text.dropWhile Char.isDigit) := by
      rintro ⟨d, rest, htext, _⟩
      exact hrest d rest htext
    simp [fraction_of_not hnot]

theorem mem_takeWhile_isDigit {text : List Char} {c : Char}
    (h : c ∈ text.takeWhile Char.isDigit) : c.isDigit = true :=
  List.all_eq_true.mp List.all_takeWhile c h

/-- What is scanned as a number from its first digit on has a value. -/
theorem exists_unsigned? (K : Type) [Scalar K] {d : Char} (hd : d.isDigit = true)
    (text : List Char) : ∃ v : K, Literal.unsigned? (d :: (numberBody text).1) = some v := by
  have hwhole (c : Char) (hc : c ∈ d :: text.takeWhile Char.isDigit) : c.isDigit = true := by
    rcases List.mem_cons.mp hc with rfl | hc
    · exact hd
    · exact mem_takeWhile_isDigit hc
  unfold numberBody
  split
  · rename_i e rest _
    split
    · rename_i he
      have hpart (c : Char) (hc : c ∈ e :: rest.takeWhile Char.isDigit) : c.isDigit = true := by
        rcases List.mem_cons.mp hc with rfl | hc
        · exact he
        · exact mem_takeWhile_isDigit hc
      exact ⟨_, Literal.unsigned?_fraction (by simp) (by simp) hwhole hpart⟩
    · exact ⟨_, Literal.unsigned?_digits (by simp) hwhole⟩
  · exact ⟨_, Literal.unsigned?_digits (by simp) hwhole⟩

theorem value?_digit {d : Char} (hd : d.isDigit = true) (text : List Char) :
    Literal.value? (d :: text) = (Literal.unsigned? (d :: text) : Option K) := by
  have hne : d ≠ '-' := by
    rintro rfl
    exact absurd hd (by decide)
  unfold Literal.value?
  split
  · rename_i heq
    exact absurd (List.cons.inj heq).1 hne
  · rfl

theorem wordKind_cases (word : List Char) :
    wordKind word = .max ∨ wordKind word = .min ∨ wordKind word = .ident := by
  unfold wordKind
  split <;> simp

/-- The kinds of tokens that hold no number and do not stand for the end of a text. -/
def IsMark (kind : Token.Kind) : Prop := kind ≠ .number ∧ kind ≠ .endOfInput

theorem singleKind_isMark (c : Char) : IsMark (singleKind c) := by
  unfold singleKind IsMark
  split <;> simp

theorem withEquals_isMark {double single : Token.Kind} (hd : IsMark double) (hs : IsMark single)
    (rest : List Char) : IsMark (withEquals double single rest).kind := by
  unfold withEquals
  split
  · exact hd
  · exact hs

theorem ofSlash_isMark (rest : List Char) : IsMark (ofSlash rest).kind := by
  unfold ofSlash
  split <;> simp [IsMark]

/-- The first token of a text is a mark, or it is a number and has a value. -/
theorem ofChars_cases (c : Char) (rest : List Char) :
    IsMark (ofChars c rest).kind ∨
      (ofChars c rest).kind = .number ∧ Literal.HasValue (c :: (ofChars c rest).body) := by
  have hmark (kind : Token.Kind) (h1 : kind ≠ .number) (h2 : kind ≠ .endOfInput) : IsMark kind :=
    ⟨h1, h2⟩
  unfold ofChars
  split
  · exact .inl (ofSlash_isMark rest)
  split
  · rename_i hc
    unfold ofMinus
    split
    · rename_i hdigit
      cases rest with
      | nil => simp at hdigit
      | cons d text =>
        have hd : d.isDigit = true := by simpa using hdigit
        refine .inr ⟨rfl, fun K _ => ?_⟩
        obtain ⟨v, hv⟩ := exists_unsigned? K hd text
        exact ⟨-v, by simp [hc, Literal.value?, numberBody_cons hd, hv]⟩
    · exact .inl (hmark _ (by simp) (by simp))
  split
  · exact .inl (withEquals_isMark (hmark _ (by simp) (by simp)) (hmark _ (by simp) (by simp)) rest)
  split
  · exact .inl (withEquals_isMark (hmark _ (by simp) (by simp)) (hmark _ (by simp) (by simp)) rest)
  split
  · exact .inl (withEquals_isMark (hmark _ (by simp) (by simp)) (hmark _ (by simp) (by simp)) rest)
  split
  · rename_i hd
    refine .inr ⟨rfl, fun K _ => ?_⟩
    obtain ⟨v, hv⟩ := exists_unsigned? K hd rest
    exact ⟨v, by rw [value?_digit hd, hv]⟩
  split
  · rcases wordKind_cases (c :: rest.takeWhile Text.inWord) with h | h | h <;>
      exact .inl (by simp [IsMark, h])
  · exact .inl (singleKind_isMark c)

end Lexeme

namespace Token

/-- Every token of a text is a mark, or it is a number and has a value. -/
theorem mem_scan_cases {offset : Nat} {text : List Char} {t : Token} (ht : t ∈ scan offset text) :
    Lexeme.IsMark t.kind ∨ t.kind = .number ∧ Literal.HasValue t.text := by
  fun_induction scan offset text with
  | case1 => simp at ht
  | case2 offset c rest _ ih => exact ih ht
  | case3 offset c rest _ lexeme text stop ih =>
    rcases List.mem_cons.mp ht with rfl | ht
    · exact Lexeme.ofChars_cases c rest
    · exact ih ht

theorem hasValue_of_mem_significant {text : List Char} {t : Token} (ht : t ∈ significant text)
    (hkind : t.kind = .number) : Literal.HasValue t.text := by
  rcases mem_scan_cases ((List.mem_filter.mp ht).1) with hmark | ⟨_, hvalue⟩
  · exact absurd hkind hmark.1
  · exact hvalue

theorem kind_ne_endOfInput_of_mem_scan {offset : Nat} {text : List Char} {t : Token}
    (ht : t ∈ scan offset text) : t.kind ≠ .endOfInput := by
  rcases mem_scan_cases ht with hmark | ⟨hnumber, _⟩
  · exact hmark.2
  · simp [hnumber]

end Token
end LinProg
