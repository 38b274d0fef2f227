import LinProg.Scalar.Basic
import LinProg.Decimal.Numeral
import LinProg.Text.Blank

/-!
# Numbers in tables

Three ways to write a number: with fixed places, with at most one place, and with at most four
places and no zeros at the end. None of them writes a negative zero.
-/

namespace LinProg.Display

variable {K : Type} [Printable K]

def fixed (places : Nat) (value : K) : String :=
  String.ofList ((Printable.numeral value).text places)

/-- The text without zeros at the end of its fraction, and without a point at its end. -/
def dropZeros (text : List Char) : List Char :=
  if '.' ∈ text then Text.dropTrailing (· == '.') (Text.dropTrailing (· == '0') text)
  else text

/-- The number with up to four places. -/
def short (value : K) : String :=
  String.ofList (dropZeros ((Printable.numeral value).text 4))

variable [Scalar K]

/-- The nearest integer, a half going away from zero. Infinities and undefined values are
kept. -/
def roundHalfAway (value : K) : K :=
  match Printable.numeral value with
  | .finite negative num den =>
      let magnitude : K := Scalar.ofNat (roundDiv .away num den)
      if negative then -magnitude else magnitude
  | _ => value

/-- The distance from an integer below which a number counts as that integer. -/
def integralTolerance : K := Scalar.ofDecimal 1 9

/-- The number with one place, or with none if it is as good as integral. -/
def compact (value : K) : String :=
  let rounded := roundHalfAway value
  if Scalar.abs (value - rounded) < integralTolerance then fixed 0 rounded else fixed 1 value

end LinProg.Display
