import LinProg.Decimal.Numeral
import LinProg.Proofs.Scalar.OrderedField
import Mathlib.Algebra.Field.Rat
import Mathlib.Algebra.Order.Ring.Rat
import Mathlib.Data.Rat.Sqrt

/-!
# Rational numbers

The rationals print exactly. Lengths are exact where they are rational, and else a positive number
in their place; angles are measured along the unit square that stands on its corner, which orders
directions as the arc does.
-/
namespace LinProg

instance : Printable ℚ where
  numeral x := .finite (x < 0) x.num.natAbs x.den

instance : Polar ℚ where
  hypot x y := Rat.sqrt (x * x + y * y)
  atan2 y x :=
    let across := x / (|x| + |y|)
    if y < 0 then across - 1 else 1 - across
  angleLe a b := a ≤ b

/-- The square root of a positive number is positive, whether or not it is exact. -/
theorem sqrt_pos_of_pos {q : ℚ} (hq : 0 < q) : 0 < Rat.sqrt q := by
  have hnum : 0 < Int.sqrt q.num := by
    rw [Int.sqrt, Int.natCast_pos, Nat.sqrt_pos]
    exact Int.lt_toNat.mpr (Rat.num_pos.mpr hq)
  have hden : 0 < Nat.sqrt q.den := Nat.sqrt_pos.mpr q.den_pos
  rw [Rat.sqrt, Rat.mkRat_eq_div]
  exact div_pos (Int.cast_pos.mpr hnum) (Nat.cast_pos.mpr hden)

theorem hypot_pos_rat {x y : ℚ} (h : x ≠ 0 ∨ y ≠ 0) : 0 < Polar.hypot x y := by
  refine sqrt_pos_of_pos ?_
  rcases h with h | h
  · exact add_pos_of_pos_of_nonneg (mul_self_pos.mpr h) (mul_self_nonneg y)
  · exact add_pos_of_nonneg_of_pos (mul_self_nonneg x) (mul_self_pos.mpr h)

end LinProg
