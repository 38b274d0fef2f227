/-!
# Numbers

The library computes over any type of numbers that offers the operations below. Nothing is
assumed of them: binary64 numbers, whose sums round, and exact rationals are both instances.
Laws are added where a statement needs them.
-/

namespace LinProg

/-- Numbers that linear programs can be stated and solved over. -/
class Scalar (K : Type) extends
    Add K, Sub K, Mul K, Div K, Neg K, Zero K, One K, LT K, LE K, BEq K where
  decidableLT : DecidableLT K
  decidableLE : DecidableLE K
  /-- The magnitude of a number. -/
  abs : K → K
  /-- Whether the number is neither an infinity nor an undefined value. -/
  isFinite : K → Bool
  /-- Whether the number lies strictly below positive infinity. -/
  belowTop : K → Bool
  /-- The number written by the digits of the first argument, of which as many as the second
  argument says stand after the point. -/
  ofDecimal : Nat → Nat → K

-- a type with operations of its own keeps to those
attribute [instance (100)] Scalar.toAdd Scalar.toSub Scalar.toMul Scalar.toDiv Scalar.toNeg
  Scalar.toZero Scalar.toOne Scalar.toLT Scalar.toLE Scalar.toBEq

instance Scalar.instDecidableLT {K : Type} [Scalar K] : DecidableLT K := Scalar.decidableLT

instance Scalar.instDecidableLE {K : Type} [Scalar K] : DecidableLE K := Scalar.decidableLE

/-- The functions of plane geometry that are not rational. -/
class Polar (K : Type) where
  /-- The length of the vector with the given coordinates. -/
  hypot : K → K → K
  /-- The polar angle of the vector whose second coordinate comes first. -/
  atan2 : K → K → K
  /-- A total order on angles. -/
  angleLe : K → K → Bool

namespace Scalar

variable {K : Type} [Scalar K]

/-- A count as a number. -/
def ofNat (n : Nat) : K := ofDecimal n 0

/-- The sum from left to right, begun at negative zero, which is neutral also where zeros are
signed. -/
def sum (xs : List K) : K := xs.foldl (· + ·) (-0)

@[simp] theorem sum_nil : sum ([] : List K) = -0 := rfl

/-- The sum of the products of the entries at equal positions. -/
def dot (xs ys : List K) : K := sum (List.zipWith (· * ·) xs ys)

@[simp] theorem dot_nil_left (ys : List K) : dot [] ys = -0 := rfl

@[simp] theorem dot_nil_right (xs : List K) : dot xs [] = -0 := by
  simp [dot]

end Scalar

end LinProg
