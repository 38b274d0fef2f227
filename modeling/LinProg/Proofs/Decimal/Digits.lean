import LinProg.Decimal.Expression
import LinProg.Proofs.Model.Lexemes
import LinProg.Proofs.Scalar.Rational
import Mathlib.Data.List.DropRight
import Mathlib.Tactic.FieldSimp

/-!
# The digits of numbers

A number with at most four places is printed with all of its digits and no zeros at the end. What is
printed is a literal, and reading it gives the number back.
-/
namespace LinProg

theorem ofDigitChars_replicate_zero (b n : ℕ) :
    Nat.ofDigitChars b (List.replicate n '0') 0 = 0 := by
  induction n with
  | zero => rfl
  | succ n ih => simp [List.replicate_succ, Nat.ofDigitChars_cons, ih]

/-- A character that passes a test is none that fails it. -/
theorem ne_of_test {test : Char → Bool} {c mark : Char} (hc : test c = true)
    (hmark : test mark = false) : c ≠ mark := by
  rintro rfl
  rw [hc] at hmark
  cases hmark

/-- Digits, at least one. -/
def IsDigitRun (digits : List Char) : Prop := digits ≠ [] ∧ ∀ c ∈ digits, c.isDigit = true

/-- Digits, perhaps with a point and more digits behind them. -/
inductive IsDecimal : List Char → Prop
  | whole {digits : List Char} : IsDigitRun digits → IsDecimal digits
  | fraction {digits part : List Char} : IsDigitRun digits → IsDigitRun part →
      IsDecimal (digits ++ '.' :: part)

/-- A point before the digits of a fraction, unless there are none. -/
def pointed : List Char → List Char
  | [] => []
  | d :: part => '.' :: d :: part

theorem isDecimal_pointed {digits part : List Char} (h : IsDigitRun digits)
    (hpart : ∀ c ∈ part, c.isDigit = true) : IsDecimal (digits ++ pointed part) := by
  cases part with
  | nil => simpa [pointed] using .whole h
  | cons d part => exact .fraction h ⟨List.cons_ne_nil _ _, hpart⟩

theorem IsDecimal.exists_pointed {text : List Char} (h : IsDecimal text) :
    ∃ d digits part, d.isDigit = true ∧ (∀ c ∈ digits, c.isDigit = true) ∧
      (∀ c ∈ part, c.isDigit = true) ∧ text = d :: (digits ++ pointed part) := by
  have hcons {digits : List Char} (h : IsDigitRun digits) : ∃ d more, digits = d :: more ∧
      d.isDigit = true ∧ ∀ c ∈ more, c.isDigit = true := by
    obtain ⟨d, more, rfl⟩ := List.exists_cons_of_ne_nil h.1
    exact ⟨d, more, rfl, h.2 d List.mem_cons_self, fun c hc => h.2 c (List.mem_cons_of_mem d hc)⟩
  cases h with
  | whole h =>
    obtain ⟨d, more, rfl, hd, hmore⟩ := hcons h
    exact ⟨d, more, [], hd, hmore, nofun, by simp [pointed]⟩
  | fraction h hpart =>
    obtain ⟨d, more, rfl, hd, hmore⟩ := hcons h
    obtain ⟨e, part, rfl, _⟩ := hcons hpart
    exact ⟨d, more, e :: part, hd, hmore, hpart.2, rfl⟩

theorem isDigitRun_toDigits (n : ℕ) : IsDigitRun (Nat.toDigits 10 n) :=
  ⟨Nat.toDigits_ne_nil, fun _ hc => Nat.isDigit_of_mem_toDigits (by decide) (by decide) hc⟩

namespace Literal

theorem digitsValue_eq (digits : List Char) :
    digitsValue digits = Nat.ofDigitChars 10 digits 0 := rfl

theorem digitsValue_zeros (digits : List Char) (n : ℕ) :
    digitsValue (digits ++ List.replicate n '0') = digitsValue digits * 10 ^ n := by
  induction n with
  | zero => simp
  | succ n ih =>
    rw [List.replicate_succ', ← List.append_assoc, digitsValue_append, ih, digitValue, Nat.sub_self]
    ring

theorem unsigned?_pointed {K : Type} [Scalar K] {digits part : List Char} (h : IsDigitRun digits)
    (hpart : ∀ c ∈ part, c.isDigit = true) :
    unsigned? (digits ++ pointed part) =
      some (Scalar.ofDecimal (digitsValue (digits ++ part)) part.length : K) := by
  cases part with
  | nil => simpa [pointed] using unsigned?_digits h.1 h.2
  | cons d part => exact unsigned?_fraction h.1 (List.cons_ne_nil _ _) h.2 hpart

end Literal

namespace Text

theorem dropTrailing_eq {test : Char → Bool} {kept dropped : List Char}
    (hdropped : ∀ c ∈ dropped, test c = true) (hkept : ∀ c ∈ kept.getLast?, test c = false) :
    dropTrailing test (kept ++ dropped) = kept := by
  have hfirst : (kept ++ dropped).reverse.dropWhile test = kept.reverse.dropWhile test := by
    rw [List.reverse_append,
      List.dropWhile_append_of_pos fun c hc => hdropped c (List.mem_reverse.mp hc)]
  rw [dropTrailing, hfirst]
  refine List.rdropWhile_eq_self_iff.mpr fun hne => ?_
  simpa using hkept _ (List.getLast?_eq_some_getLast hne)

theorem getLast?_dropTrailing (test : Char → Bool) (text : List Char) :
    ∀ c ∈ (dropTrailing test text).getLast?, test c = false := by
  intro c hc
  have hnot := List.head?_dropWhile_not test text.reverse
  rw [dropTrailing, List.getLast?_reverse, Option.mem_def] at hc
  rw [hc] at hnot
  simpa using hnot

theorem mem_of_mem_dropTrailing {test : Char → Bool} {text : List Char} {c : Char}
    (h : c ∈ dropTrailing test text) : c ∈ text := by
  obtain ⟨dropped, htext, _⟩ := dropTrailing_append test text
  rw [htext]
  exact List.mem_append_left _ h

end Text

namespace Display

/-- The zeros at the end of a fraction are left out, and its point if nothing is left. -/
theorem dropZeros_point {front part : List Char} (hfront : ∀ c ∈ front.getLast?, c.isDigit = true)
    (hpart : ∀ c ∈ part, c.isDigit = true) :
    dropZeros (front ++ '.' :: part) =
      front ++ pointed (Text.dropTrailing (· == '0') part) := by
  have hpoint (c : Char) (hc : c.isDigit = true) : (c == '.') = false :=
    beq_eq_false_iff_ne.mpr (ne_of_test hc rfl)
  have hlast := Text.getLast?_dropTrailing (· == '0') part
  have hdigits (c : Char) (hc : c ∈ Text.dropTrailing (· == '0') part) : c.isDigit = true :=
    hpart c (Text.mem_of_mem_dropTrailing hc)
  obtain ⟨zeros, hzeros, hall⟩ := Text.dropTrailing_append (· == '0') part
  rw [dropZeros, if_pos (by simp)]
  generalize Text.dropTrailing (· == '0') part = kept at *
  have hkept : Text.dropTrailing (· == '0') (front ++ '.' :: part) = front ++ '.' :: kept := by
    have hsplit : front ++ '.' :: part = (front ++ '.' :: kept) ++ zeros := by simp [hzeros]
    rw [hsplit]
    refine Text.dropTrailing_eq hall fun c hc => ?_
    cases kept with
    | nil =>
      obtain rfl : '.' = c := by simpa using hc
      rfl
    | cons d kept => exact hlast c (by simpa using hc)
  rw [hkept]
  cases kept with
  | nil =>
    have hpointed := @Text.dropTrailing_eq (· == '.') front ['.'] (by simp) fun c hc =>
      hpoint c (hfront c hc)
    rwa [pointed, List.append_nil]
  | cons d kept =>
    have hnone := @Text.dropTrailing_eq (· == '.') (front ++ '.' :: d :: kept) []
      (List.forall_mem_nil _) fun c hc =>
        hpoint c (hdigits c (List.mem_of_getLast? (by simpa using hc)))
    rwa [List.append_nil] at hnone

end Display

namespace Numeral

/-- The digits behind the point, with zeros before them up to the given number of places. -/
def placesText (places part : ℕ) : List Char :=
  List.replicate (places - (Nat.toDigits 10 part).length) '0' ++ Nat.toDigits 10 part

variable {places : ℕ}

theorem unitsText_eq (h : 0 < places) (units : ℕ) :
    unitsText places units =
      Nat.toDigits 10 (units / 10 ^ places) ++ '.' :: placesText places (units % 10 ^ places) := by
  rw [unitsText, if_neg (Nat.ne_of_gt h)]
  rfl

theorem isDigit_placesText (part : ℕ) : ∀ c ∈ placesText places part, c.isDigit = true := by
  intro c hc
  rcases List.mem_append.mp hc with hzero | hdigit
  · rw [(List.mem_replicate.mp hzero).2]
    rfl
  · exact (isDigitRun_toDigits part).2 c hdigit

theorem length_placesText (h : 0 < places) {part : ℕ} (hpart : part < 10 ^ places) :
    (placesText places part).length = places := by
  have hlength := (Nat.length_toDigits_le_iff (by decide) h).mpr hpart
  rw [placesText, List.length_append, List.length_replicate, Nat.sub_add_cancel hlength]

theorem digitsValue_placesText (part : ℕ) :
    Literal.digitsValue (placesText places part) = part := by
  rw [Literal.digitsValue_eq, placesText, Nat.ofDigitChars_append, ofDigitChars_replicate_zero,
    Nat.ofDigitChars_ten_toDigits]

/-- The digits before the point and those behind it are the units. -/
theorem digitsValue_units (h : 0 < places) (units : ℕ) :
    Literal.digitsValue (Nat.toDigits 10 (units / 10 ^ places) ++
      placesText places (units % 10 ^ places)) = units := by
  have hpart : units % 10 ^ places < 10 ^ places := Nat.mod_lt _ (Nat.pow_pos (by decide))
  rw [Literal.digitsValue_eq, Nat.ofDigitChars_append, Nat.ofDigitChars_eq_ofDigitChars_zero,
    ← Literal.digitsValue_eq (placesText ..), digitsValue_placesText,
    Nat.ofDigitChars_ten_toDigits, length_placesText h hpart, Nat.div_add_mod]

/-- The units without zeros at the end of the fraction. -/
def trimmedText (places units : ℕ) : List Char :=
  Nat.toDigits 10 (units / 10 ^ places) ++
    pointed (Text.dropTrailing (· == '0') (placesText places (units % 10 ^ places)))

theorem dropZeros_unitsText (h : 0 < places) (negative : Bool) (units : ℕ) :
    Display.dropZeros (signText negative ++ unitsText places units) =
      signText negative ++ trimmedText places units := by
  have hwhole := isDigitRun_toDigits (units / 10 ^ places)
  rw [unitsText_eq h, ← List.append_assoc, Display.dropZeros_point _ (isDigit_placesText _),
    List.append_assoc]
  · rfl
  · intro c hc
    rw [List.getLast?_append_of_ne_nil _ hwhole.1] at hc
    exact hwhole.2 c (List.mem_of_getLast? hc)

theorem isDigit_trimmed (units : ℕ) :
    ∀ c ∈ Text.dropTrailing (· == '0') (placesText places (units % 10 ^ places)),
      c.isDigit = true :=
  fun c hc => isDigit_placesText _ c (Text.mem_of_mem_dropTrailing hc)

theorem isDecimal_trimmedText (units : ℕ) : IsDecimal (trimmedText places units) :=
  isDecimal_pointed (isDigitRun_toDigits _) (isDigit_trimmed units)

/-- Reading the printed units gives the number. -/
theorem unsigned?_trimmedText {K : Type} [Field K] [LinearOrder K] [IsStrictOrderedRing K]
    (h : 0 < places) (units : ℕ) :
    Literal.unsigned? (trimmedText places units) = some ((units : K) / 10 ^ places) := by
  have hvalue := digitsValue_units h units
  have hpart : units % 10 ^ places < 10 ^ places := Nat.mod_lt _ (Nat.pow_pos (by decide))
  have hlength := length_placesText h hpart
  obtain ⟨zeros, hzeros, hall⟩ :=
    Text.dropTrailing_append (· == '0') (placesText places (units % 10 ^ places))
  rw [trimmedText, Literal.unsigned?_pointed (isDigitRun_toDigits _) (isDigit_trimmed units),
    Scalar.ofDecimal_exact]
  generalize Text.dropTrailing (· == '0') (placesText places (units % 10 ^ places)) = kept at *
  generalize Nat.toDigits 10 (units / 10 ^ places) = whole at *
  have hreplicate : zeros = List.replicate zeros.length '0' :=
    List.eq_replicate_of_mem fun c hc => by simpa using hall c hc
  rw [hzeros, List.length_append] at hlength
  rw [hzeros, ← List.append_assoc, hreplicate, Literal.digitsValue_zeros] at hvalue
  rw [← hlength, ← hvalue]
  push_cast
  rw [pow_add]
  field_simp

end Numeral

/-- A multiple of one ten-thousandth. -/
def HasFourPlaces (x : ℚ) : Prop := ∃ n : ℤ, x = n / 10000

theorem HasFourPlaces.abs {x : ℚ} (h : HasFourPlaces x) : HasFourPlaces |x| := by
  obtain ⟨n, rfl⟩ := h
  exact ⟨|n|, by rw [abs_div]; simp⟩

namespace Display

/-- The ten-thousandths that a number is printed with. -/
def tenThousandths (x : ℚ) : ℕ := Numeral.units 4 x.num.natAbs x.den

theorem tenThousandths_eq {x : ℚ} (h : HasFourPlaces x) :
    (tenThousandths x : ℚ) = |x| * 10 ^ 4 := by
  obtain ⟨n, hn⟩ := h
  have hscaled : x.num * 10 ^ 4 = n * x.den := by
    have hnum : (x.num : ℚ) * 10 ^ 4 = n * x.den := by
      rw [← x.mul_den_eq_num, mul_right_comm]
      congr 1
      rw [hn]
      norm_num
    exact_mod_cast hnum
  have hunits : x.num.natAbs * Nat.pow 10 4 = n.natAbs * x.den := by
    simpa [Int.natAbs_mul] using congrArg Int.natAbs hscaled
  rw [tenThousandths, Numeral.units, hunits, roundDiv_mul .even _ x.den_pos, hn, abs_div,
    Nat.cast_natAbs]
  field_simp
  norm_num

/-- The digits of the magnitude of a number. -/
def magnitudeText (x : ℚ) : List Char := Numeral.trimmedText 4 (tenThousandths x)

def signedText (x : ℚ) : List Char := Numeral.signText (decide (x < 0)) ++ magnitudeText x

theorem isDecimal_magnitudeText (x : ℚ) : IsDecimal (magnitudeText x) :=
  Numeral.isDecimal_trimmedText _

theorem toList_short {x : ℚ} (h : HasFourPlaces x) : (short x).toList = signedText x := by
  have hsign : (decide (x < 0) && tenThousandths x != 0) = decide (x < 0) := by
    have hzero : tenThousandths x = 0 → ¬ x < 0 := by
      intro hzero hneg
      have hunits := tenThousandths_eq h
      rw [hzero] at hunits
      simp [hneg.ne] at hunits
    by_cases hx : x < 0 <;> simp_all
  have htext : Printable.numeral x = .finite (decide (x < 0)) x.num.natAbs x.den := rfl
  rw [short, String.toList_ofList, htext, Numeral.text, ← tenThousandths, hsign,
    Numeral.dropZeros_unitsText (by decide)]
  rfl

theorem unsigned?_magnitudeText {x : ℚ} (h : HasFourPlaces x) :
    Literal.unsigned? (magnitudeText x) = some |x| := by
  rw [magnitudeText, Numeral.unsigned?_trimmedText (by decide), tenThousandths_eq h]
  field_simp

theorem magnitudeText_abs {x : ℚ} (h : HasFourPlaces x) : magnitudeText |x| = magnitudeText x := by
  have habs : tenThousandths |x| = tenThousandths x := by
    have heq : (tenThousandths |x| : ℚ) = tenThousandths x := by
      rw [tenThousandths_eq h.abs, tenThousandths_eq h, abs_abs]
    exact_mod_cast heq
  rw [magnitudeText, habs, magnitudeText]

/-- A printed number is read back. -/
theorem value?_signedText {x : ℚ} (h : HasFourPlaces x) :
    Literal.value? (signedText x) = some x := by
  have hvalue := unsigned?_magnitudeText h
  by_cases hx : x < 0
  · simp [signedText, hx, Numeral.signText, Literal.value?, hvalue, abs_of_neg hx]
  · obtain ⟨d, _, _, hd, _, _, htext⟩ := (isDecimal_magnitudeText x).exists_pointed
    rw [htext] at hvalue
    simp [signedText, hx, Numeral.signText, htext, Lexeme.value?_digit hd, hvalue,
      abs_of_nonneg (not_lt.mp hx)]

theorem signedText_abs {x : ℚ} (h : HasFourPlaces x) : signedText |x| = magnitudeText x := by
  simp [signedText, Numeral.signText, magnitudeText_abs h]

end Display
end LinProg
