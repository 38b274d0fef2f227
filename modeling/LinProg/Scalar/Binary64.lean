import LinProg.Scalar.Basic
import LinProg.Decimal.Numeral

/-!
# Binary64 numbers

Binary64 numbers as scalars. Reading a quotient rounds the exact result once, to the nearest
number and in a tie to the even one. The length of a vector is a root with one correction, which
brings it close to the exact length but not always to the nearest number.
-/

namespace LinProg.Binary64

/-- The word in which only the sign is set. -/
def signUnit : Nat := 1 <<< 63

/-- The weight of the leading digit of a significand, which a word does not store. -/
def leadingUnit : Nat := 1 <<< 52

/-- The word of positive infinity. -/
def infinityWord : Nat := 2047 <<< 52

/-- The word of the number nearest to `num / den`. A word without sign is a multiple of the
smallest positive number while it stays below `2 ^ 53`, and each further `2 ^ 52` doubles the
step. -/
def nearestWord (num den : Nat) : Nat :=
  if num = 0 then 0
  else
    -- the quotient in units of the smallest positive number
    let scaled := num <<< 1074
    -- the lengths of numerator and denominator fix the step up to one doubling
    let guess := num.log2 + 1021 - den.log2
    let step := if 2 * leadingUnit ≤ scaled / (den <<< guess) then guess + 1 else guess
    -- rounding up to the next power of two carries into the exponent, as it should
    min infinityWord ((step <<< 52) + roundDiv .even scaled (den <<< step))

/-- The number nearest to `num / den`. -/
def ofRatio (num den : Nat) : Float := Float.ofBits (nearestWord num den).toUInt64

/-- Whether the sign is set. -/
def isNegative (x : Float) : Bool := signUnit ≤ x.toBits.toNat

/-- The power of two that scales the significand, as the word stores it. -/
def power (x : Float) : Nat := (x.toBits.toNat >>> 52) % 2048

/-- The stored digits of the significand. -/
def fraction (x : Float) : Nat := x.toBits.toNat % leadingUnit

/-- The exact value of a number. -/
def numeral (x : Float) : Numeral :=
  let negative := isNegative x
  let significand := leadingUnit + fraction x
  if power x = 2047 then if fraction x = 0 then .infinite negative else .undefined
  -- numbers that are too small for a leading digit
  else if power x = 0 then .finite negative (fraction x) (1 <<< 1074)
  else if power x < 1075 then .finite negative significand (1 <<< (1075 - power x))
  else .finite negative (significand <<< (power x - 1075)) 1

/-- The length of a vector with coordinates `long ≥ short ≥ 0` whose squares neither overflow nor
vanish. A step of Newton's method corrects the root of the sum of squares. How much its square is
off is found from the amount by which it exceeds a coordinate, so that little cancels. -/
def correctedRoot (long short : Float) : Float :=
  let root := (long * long + short * short).sqrt
  let excess :=
    if root ≤ 2 * short then
      let beyond := root - short
      long * (2 * beyond - long) + (beyond - 2 * (long - short)) * beyond
    else
      let beyond := root - long
      2 * beyond * (long - 2 * short) + ((4 * beyond - short) * short + beyond * beyond)
  root - excess / (2 * root)

/-- The length of the vector with the given coordinates, free of overflow on the way. -/
def hypot (x y : Float) : Float :=
  -- an infinite coordinate wins over an undefined one
  if x.isInf || y.isInf then 1 / 0
  else if x.isNaN || y.isNaN then x + y
  else
    let long := if x.abs < y.abs then y.abs else x.abs
    let short := if x.abs < y.abs then x.abs else y.abs
    -- a coordinate that is too short to change the length
    if short.scaleB 54 ≤ long then long + short
    else if Float.scaleB 1 511 < long then
      (correctedRoot (long.scaleB (-600)) (short.scaleB (-600))).scaleB 600
    else if short < Float.scaleB 1 (-459) then
      (correctedRoot (long.scaleB 600) (short.scaleB 600)).scaleB (-600)
    else correctedRoot long short

/-- Position in the order that puts undefined values first and negative zero before zero. -/
def rank (x : Float) : Int :=
  let word := x.toBits.toNat
  if x.isNaN then -2 * (signUnit : Int)
  else if isNegative x then (signUnit : Int) - 1 - word
  else word

end Binary64

instance : Scalar Float where
  zero := 0
  one := 1
  decidableLT := inferInstance
  decidableLE := inferInstance
  abs := Float.abs
  isFinite := Float.isFinite
  belowTop x := x < 1 / 0
  ofDecimal digits places := Binary64.ofRatio digits (Nat.pow 10 places)

instance : Polar Float where
  hypot := Binary64.hypot
  atan2 := Float.atan2
  angleLe a b := Binary64.rank a ≤ Binary64.rank b

instance : Printable Float where
  numeral := Binary64.numeral

end LinProg
