import LinProg.Decimal.Literal

/-!
# Numbers in JSON texts

A number in a JSON text is a run of digits, which may hold a point, with a power of ten. It is
read with as many leading digits as a word of 64 bits can hold, which are then scaled by a power
of ten in one step or, for very small numbers, in a few. The digits before the point and those
after it are taken up separately, so that a small digit after the point can still fit where a
greater one before it did not.
-/

namespace LinProg.Json

/-- A number as it is written: the digits before the point, those after it and the power of ten
that follows, negated or not. -/
structure Decimal where
  negative : Bool
  whole : List Char
  part : List Char
  exponent : Int
  deriving DecidableEq

namespace Decimal

/-- All digits as one number. -/
def digits (d : Decimal) : Nat := Literal.digitsValue (d.whole ++ d.part)

/-- The power of ten by which the number of all digits is scaled. -/
def scale (d : Decimal) : Int := d.exponent - d.part.length

/-- A number followed by the leading digits that fit a word with it, and the number of digits
left over. -/
def takeUp (value : Nat) : List Char → Nat × Nat
  | [] => (value, 0)
  | c :: rest =>
      let longer := 10 * value + Literal.digitValue c
      if longer < UInt64.size then takeUp longer rest else (value, rest.length + 1)

/-- The digits that are read, as a number with its power of ten. -/
def leading (d : Decimal) : Nat × Int :=
  let (whole, dropped) := takeUp 0 d.whole
  let (value, unread) := takeUp whole d.part
  (value, d.scale + dropped + unread)

variable {K : Type} [Scalar K]

/-- The greatest power of ten that numbers are scaled by in one step. -/
def scaleLimit : Nat := 308

/-- The power of ten with the given exponent. -/
def powerOfTen (exponent : Nat) : K := Scalar.ofNat (Nat.pow 10 exponent)

/-- The number divided by a power of ten. Nothing is left to do once it is zero. -/
def scaleDown (x : K) (exponent : Nat) : K :=
  if exponent ≤ scaleLimit then x / powerOfTen exponent
  else if x == 0 then x
  else scaleDown (x / powerOfTen scaleLimit) (exponent - scaleLimit)
termination_by exponent
decreasing_by simp only [scaleLimit] at *; omega

/-- The number multiplied by a power of ten, if the result is finite. -/
def scaleUp? (x : K) (exponent : Nat) : Option K :=
  if exponent ≤ scaleLimit then
    let scaled := x * powerOfTen exponent
    if Scalar.isFinite scaled then some scaled else none
  else if x == 0 then some x
  else none

/-- The value of a number as it is written, if it is finite. -/
def value? (d : Decimal) : Option K :=
  let (value, exponent) := d.leading
  let magnitude : Option K :=
    if 0 ≤ exponent then scaleUp? (Scalar.ofNat value) exponent.toNat
    else some (scaleDown (Scalar.ofNat value) (-exponent).toNat)
  magnitude.map fun x => if d.negative then -x else x

end Decimal

end LinProg.Json
