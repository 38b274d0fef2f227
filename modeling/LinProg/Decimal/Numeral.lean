import LinProg.Decimal.Rounding

/-!
# Numbers as they are printed

Printing asks only for the exact value of a number: a sign and a quotient of natural numbers,
an infinity, or no value at all. A numeral is printed with a fixed number of places, correctly
rounded, a half going to the even neighbour.
-/

namespace LinProg

/-- The exact value of a number, with the sign of zero. -/
inductive Numeral where
  | undefined
  | infinite (negative : Bool)
  /-- The quotient of two natural numbers, negated or not. -/
  | finite (negative : Bool) (num den : Nat)
  deriving DecidableEq

/-- Numbers whose exact value can be read off. -/
class Printable (K : Type) where
  numeral : K → Numeral

namespace Numeral

/-- A number of units of `10 ^ (-places)`, in plain notation. -/
def unitsText (places units : Nat) : List Char :=
  let whole := Nat.toDigits 10 (units / Nat.pow 10 places)
  let part := Nat.toDigits 10 (units % Nat.pow 10 places)
  if places = 0 then whole
  else whole ++ '.' :: (List.replicate (places - part.length) '0' ++ part)

/-- The units of `10 ^ (-places)` nearest to the magnitude of a finite numeral. -/
def units (places num den : Nat) : Nat := roundDiv .even (num * Nat.pow 10 places) den

def signText (negative : Bool) : List Char := if negative then ['-'] else []

/-- The text with the given number of places. Zero keeps its sign. -/
def signedText (places : Nat) : Numeral → List Char
  | undefined => ['N', 'a', 'N']
  | infinite negative => signText negative ++ ['i', 'n', 'f']
  | finite negative num den => signText negative ++ unitsText places (units places num den)

/-- The text with the given number of places. Nothing that prints as zero has a sign. -/
def text (places : Nat) : Numeral → List Char
  | finite negative num den =>
      signText (negative && units places num den != 0) ++
        unitsText places (units places num den)
  | other => other.signedText places

end Numeral

end LinProg
