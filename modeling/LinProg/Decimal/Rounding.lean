/-!
# Rounding quotients

A quotient of natural numbers is rounded to the nearest natural number. What happens half way
between two of them is a parameter.
-/

namespace LinProg

/-- Where a value half way between two neighbours goes. -/
inductive Tie where
  | even
  | away

/-- The natural number nearest to `num / den`. -/
def roundDiv (tie : Tie) (num den : Nat) : Nat :=
  let floor := num / den
  let excess := 2 * (num % den)
  if excess < den then floor
  else if den < excess then floor + 1
  else match tie with
    | .even => floor + floor % 2
    | .away => floor + 1

/-- The result differs from the quotient by at most a half. -/
theorem roundDiv_error (tie : Tie) (num : Nat) {den : Nat} (hden : 0 < den) :
    2 * num ≤ (2 * roundDiv tie num den + 1) * den ∧
      2 * roundDiv tie num den * den ≤ 2 * num + den := by
  have hsplit := Nat.div_add_mod num den
  have hmod := Nat.mod_lt num hden
  have hcomm : den * (num / den) = num / den * den := Nat.mul_comm _ _
  -- each case is linear in the quotient, the remainder and the parity of the quotient
  cases tie <;> simp only [roundDiv] <;> split <;> try split
  all_goals
    rcases Nat.mod_two_eq_zero_or_one (num / den) with h | h <;>
      simp only [h, Nat.add_mul, Nat.mul_add, Nat.mul_assoc, Nat.add_zero, Nat.one_mul,
        Nat.mul_one] <;> omega

/-- A quotient without remainder is kept. -/
theorem roundDiv_mul (tie : Tie) (n : Nat) {den : Nat} (hden : 0 < den) :
    roundDiv tie (n * den) den = n := by
  obtain ⟨hlow, hhigh⟩ := roundDiv_error tie (n * den) hden
  rw [← Nat.mul_assoc] at hlow hhigh
  have hle : 2 * n ≤ 2 * roundDiv tie (n * den) den + 1 := Nat.le_of_mul_le_mul_right hlow hden
  have hge : 2 * roundDiv tie (n * den) den ≤ 2 * n + 1 := by
    apply Nat.le_of_mul_le_mul_right _ hden
    rwa [Nat.add_mul, Nat.one_mul]
  omega

end LinProg
