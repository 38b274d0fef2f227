import LinProg.Scalar.Basic

/-!
# Decimal literals

A literal is a run of digits, or two runs with a point between them, with or without a minus
sign before it.
-/

namespace LinProg.Literal

variable {K : Type} [Scalar K]

def digitValue (c : Char) : Nat := c.toNat - '0'.toNat

/-- The number that a run of digits stands for. -/
def digitsValue (digits : List Char) : Nat :=
  digits.foldl (fun value c => 10 * value + digitValue c) 0

theorem digitsValue_append (digits : List Char) (c : Char) :
    digitsValue (digits ++ [c]) = 10 * digitsValue digits + digitValue c := by
  simp [digitsValue]

def isDigits (text : List Char) : Bool := !text.isEmpty && text.all Char.isDigit

/-- The value of a literal without sign. -/
def unsigned? (text : List Char) : Option K :=
  match text.span Char.isDigit with
  | (whole, []) => if whole.isEmpty then none else some (Scalar.ofDecimal (digitsValue whole) 0)
  | (whole, mark :: part) =>
      if !whole.isEmpty && mark == '.' && isDigits part then
        some (Scalar.ofDecimal (digitsValue (whole ++ part)) part.length)
      else none

def value? : List Char → Option K
  | '-' :: text => (unsigned? text).map (- ·)
  | text => unsigned? text

end LinProg.Literal
