import LinProg.Scalar.Binary64

/-!
# The shortest decimal of a binary number

A binary number stands for all numbers that are rounded to it. Among the decimals with the fewest
digits that stand for it, the one nearest to it is chosen.
-/

namespace LinProg.Shortest

/-- A positive binary number `significand * 2 ^ exponent`, and whether the numbers below it lie
half as far apart as those above it. -/
structure Binary where
  significand : Nat
  exponent : Int
  narrowBelow : Bool

/-- A decimal number `digits * 10 ^ exponent`. -/
structure Decimal where
  digits : Nat
  exponent : Int
  deriving DecidableEq

structure Ratio where
  num : Nat
  den : Nat

/-- The number `n * base ^ exponent`. -/
def Ratio.ofScaled (n base : Nat) (exponent : Int) : Ratio :=
  if 0 ≤ exponent then ⟨n * base.pow exponent.toNat, 1⟩
  else ⟨n, base.pow (-exponent).toNat⟩

def Ratio.lt (r s : Ratio) : Bool := r.num * s.den < s.num * r.den

/-- A quarter of the unit of a binary number, so many times. -/
def Binary.quarters (b : Binary) (n : Nat) : Ratio := .ofScaled n 2 (b.exponent - 2)

def Binary.value (b : Binary) : Ratio := b.quarters (4 * b.significand)

/-- Whether a quotient is rounded to a binary number. The ends of the interval are if the
significand is even. -/
def Binary.covers (b : Binary) (r : Ratio) : Bool :=
  let low := b.quarters (4 * b.significand - if b.narrowBelow then 1 else 2)
  let high := b.quarters (4 * b.significand + 2)
  if b.significand % 2 = 0 then !r.lt low && !high.lt r else low.lt r && r.lt high

/-- The number of digits before the point of a quotient, negative if zeros follow the point. -/
def Ratio.magnitude (r : Ratio) : Int :=
  -- below one, the inverse less a little has one digit more than there are zeros
  if r.den ≤ r.num then (Nat.toDigits 10 (r.num / r.den)).length
  else 1 - ((Nat.toDigits 10 ((r.den - 1) / r.num)).length : Int)

/-- The nearer of two decimals to a binary number, the even one of two equally near ones. -/
def Binary.nearer (b : Binary) (below above : Decimal) : Decimal :=
  let x := b.value
  let middle := Ratio.ofScaled (below.digits + above.digits) 10 below.exponent
  let double : Ratio := ⟨2 * x.num, x.den⟩
  if double.lt middle then below
  else if middle.lt double then above
  else if below.digits % 2 = 0 then below
  else above

/-- The decimal with the given unit that stands for a binary number, if there is one. -/
def Binary.onGrid? (b : Binary) (exponent : Int) : Option Decimal :=
  let scaled := Ratio.ofScaled 1 10 exponent
  let x := b.value
  -- only the two neighbours of the number can be nearest to it on the grid
  let floor := x.num * scaled.den / (x.den * scaled.num)
  let below : Decimal := ⟨floor, exponent⟩
  let above : Decimal := ⟨floor + 1, exponent⟩
  let belowFits := b.covers (.ofScaled floor 10 exponent)
  let aboveFits := b.covers (.ofScaled (floor + 1) 10 exponent)
  match belowFits, aboveFits with
  | true, true => some (b.nearer below above)
  | true, false => some below
  | false, true => some above
  | false, false => none

/-- The decimal without a zero at its end. Only a decimal that was rounded up to ten has one. -/
def Decimal.trimmed (d : Decimal) : Decimal :=
  if d.digits % 10 = 0 then ⟨d.digits / 10, d.exponent + 1⟩ else d

/-- The shortest decimal of a binary number. Seventeen digits always suffice. -/
def Binary.shortest (b : Binary) : Decimal :=
  let magnitude := b.value.magnitude
  -- from one digit on, each grid is ten times finer than the one before
  let grids := (List.range 17).map fun n : Nat => magnitude - n - 1
  ((grids.findSome? b.onGrid?).getD ⟨0, 0⟩).trimmed

/-- The magnitude of a finite binary64 number that is not zero. -/
def Binary.ofFloat (x : Float) : Binary :=
  let power : Nat := Binary64.power x
  let fraction := Binary64.fraction x
  if power = 0 then ⟨fraction, -1074, false⟩
  else
    ⟨Binary64.leadingUnit + fraction, (power : Int) - 1075, fraction == 0 && decide (1 < power)⟩

end LinProg.Shortest
