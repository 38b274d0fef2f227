import LinProg.Decimal.Expression
import LinProg.Plane.Listing
import LinProg.Proofs.Arrays.Access
import LinProg.Proofs.Decimal.Digits

/-!
# The texts of numbers by position

A number is written with its sign first. Where nothing but zeros follows, the text goes on from its
second character. No text of a number fails, and each is the text that tables show.
-/
namespace LinProg.Arrays
variable {K : Type} [Printable K]

/-- Whether a character of a number says nothing about its size. -/
def isNought (c : Char) : Bool := c == '0' || c == '.'

/-- The characters of a number with fixed places. -/
def fixedText (places : Nat) (value : K) : Option (List Char) :=
  let text := (Printable.numeral value).signedText places
  if text.head? = some '-' then do
    let magnitude ← slice text 1 text.length
    return if magnitude.all isNought then magnitude else text
  else some text

def fixed (places : Nat) (value : K) : Option String := (fixedText places value).map String.ofList

def short (value : K) : Option String :=
  (fixedText 4 value).map fun text => String.ofList (Display.dropZeros text)

section
variable [Scalar K]

def compact (value : K) : Option String :=
  let rounded := Display.roundHalfAway value
  if Scalar.abs (value - rounded) < Display.integralTolerance then fixed 0 rounded
  else fixed 1 value

def pointText (p : Point K) : Option String := do
  let x ← compact p.x
  let y ← compact p.y
  return "(" ++ x ++ ", " ++ y ++ ")"

def factorText (c : K) : Option String :=
  let magnitude := Scalar.abs c
  if Scalar.abs (magnitude - 1) < Display.unitTolerance then some "" else short magnitude

def termText (atStart : Bool) (c : K) (name : String) : Option String := do
  let factor ← factorText c
  return Display.termSign atStart (c < 0) ++ factor ++ name

def termsText : Bool → List (K × String) → Option String
  | _, [] => some ""
  | atStart, (c, name) :: rest =>
      if c == 0 then termsText atStart rest
      else do
        let term ← termText atStart c name
        let further ← termsText (atStart && term.isEmpty) rest
        return term ++ further

def linearExpression (coefficients : List K) (names : List String) : Option String := do
  let text ← termsText true (coefficients.zip names)
  return if text = "" then "0" else text

end

/-- Only zero is written with zeros alone. -/
theorem eq_zero_of_toDigits {n : ℕ} (h : (Nat.toDigits 10 n).all isNought = true) : n = 0 := by
  have hzeros : Nat.toDigits 10 n = List.replicate (Nat.toDigits 10 n).length '0' := by
    apply List.eq_replicate_of_mem
    intro c hc
    have hdigit := Nat.isDigit_of_mem_toDigits (by decide) (by decide) hc
    have hnought := List.all_eq_true.mp h c hc
    have hpoint : c ≠ '.' := by
      rintro rfl
      exact absurd hdigit (by decide)
    simpa [isNought, hpoint] using hnought
  rw [← Nat.ofDigitChars_ten_toDigits (n := n), hzeros, ofDigitChars_replicate_zero]

theorem unitsText_all_isNought (places units : ℕ) :
    (Numeral.unitsText places units).all isNought = true ↔ units = 0 := by
  constructor
  · intro h
    rw [← Nat.div_add_mod units (Nat.pow 10 places)]
    simp only [Numeral.unitsText] at h
    split at h
    · rename_i hplaces
      subst hplaces
      have hwhole := eq_zero_of_toDigits h
      simpa [Nat.mod_one] using hwhole
    · rw [List.all_append, List.all_cons, List.all_append] at h
      simp only [Bool.and_eq_true] at h
      rw [eq_zero_of_toDigits h.1, eq_zero_of_toDigits h.2.2.2, Nat.mul_zero]
  · rintro rfl
    by_cases hplaces : places = 0 <;> simp [Numeral.unitsText, hplaces, isNought]

theorem head?_unitsText (places units : ℕ) : (Numeral.unitsText places units).head? ≠ some '-' := by
  have hwhole (n : ℕ) (rest : List Char) : (Nat.toDigits 10 n ++ rest).head? ≠ some '-' := by
    cases hdigits : Nat.toDigits 10 n with
    | nil => exact absurd hdigits Nat.toDigits_ne_nil
    | cons c digits =>
      have hc := Nat.isDigit_of_mem_toDigits (b := 10) (n := n) (c := c) (by decide) (by decide)
        (by simp [hdigits])
      intro hsign
      have hminus : c = '-' := by simpa using hsign
      rw [hminus] at hc
      exact absurd hc (by decide)
  simp only [Numeral.unitsText]
  split
  · rw [← List.append_nil (Nat.toDigits 10 _)]
    exact hwhole _ _
  · exact hwhole _ _

theorem fixedText_eq (places : ℕ) (value : K) :
    fixedText places value = some ((Printable.numeral value).text places) := by
  cases h : Printable.numeral value with
  | undefined => simp [fixedText, h, Numeral.signedText, Numeral.text]
  | infinite negative =>
    cases negative with
    | false => simp [fixedText, h, Numeral.signedText, Numeral.text, Numeral.signText]
    | true =>
      simp only [fixedText, h, Numeral.signedText, Numeral.text, Numeral.signText, if_true,
        List.singleton_append, List.head?_cons, slice_tail]
      rfl
  | finite negative num den =>
    cases negative with
    | false =>
      simp [fixedText, h, Numeral.signedText, Numeral.text, Numeral.signText, head?_unitsText]
    | true =>
      have hnought := unitsText_all_isNought places (Numeral.units places num den)
      simp only [fixedText, h, Numeral.signedText, Numeral.text, Numeral.signText, if_true,
        List.singleton_append, List.head?_cons, slice_tail, Option.bind_eq_bind, Option.bind_some,
        Bool.true_and]
      by_cases hzero : Numeral.units places num den = 0
      · rw [if_pos (hnought.mpr hzero), hzero]
        rfl
      · rw [if_neg (mt hnought.mp hzero)]
        simp [hzero]

@[simp] theorem fixed_eq (places : ℕ) (value : K) :
    fixed places value = some (Display.fixed places value) := by
  rw [fixed, fixedText_eq]
  rfl

@[simp] theorem short_eq (value : K) : short value = some (Display.short value) := by
  rw [short, fixedText_eq]
  rfl

variable [Scalar K]

@[simp] theorem compact_eq (value : K) : compact value = some (Display.compact value) := by
  simp only [compact, Display.compact, fixed_eq]
  split <;> rfl

@[simp] theorem pointText_eq (p : Point K) : pointText p = some p.text := by
  simp [pointText, Point.text]

@[simp] theorem factorText_eq (c : K) : factorText c = some (Display.factorText c) := by
  simp only [factorText, Display.factorText, short_eq]
  split <;> rfl

@[simp] theorem termsText_eq (atStart : Bool) (terms : List (K × String)) :
    termsText atStart terms = some (Display.termsText atStart terms) := by
  induction terms generalizing atStart with
  | nil => rfl
  | cons term rest ih =>
    simp only [termsText, Display.termsText, termText, factorText_eq, ih, Option.bind_eq_bind,
      Option.bind_some]
    split <;> rfl

@[simp] theorem linearExpression_eq (coefficients : List K) (names : List String) :
    linearExpression coefficients names = some (Display.linearExpression coefficients names) := by
  simp [linearExpression, Display.linearExpression]

end LinProg.Arrays
