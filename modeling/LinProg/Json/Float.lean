import LinProg.Decimal.Shortest

/-!
# Binary64 numbers in JSON texts

A number is written by its shortest decimal. It is written in full from 0.00001 on and below
10000000000000000, with at least one place, and with an exponent otherwise. JSON has no
infinities: they and undefined values are null.
-/

namespace LinProg.Json

/-- A decimal in full: at least one digit stands on either side of the point. -/
def plainText (digits : List Char) (exponent : Int) : List Char :=
  let point := digits.length + exponent
  if 0 ≤ exponent then digits ++ List.replicate exponent.toNat '0' ++ ['.', '0']
  else if 0 < point then digits.take point.toNat ++ '.' :: digits.drop point.toNat
  else ['0', '.'] ++ List.replicate (-point).toNat '0' ++ digits

/-- A decimal with one digit before the point and an exponent. -/
def exponentText (digits : List Char) (exponent : Int) : List Char :=
  let power := digits.length + exponent - 1
  let part := digits.drop 1
  digits.take 1 ++ (if part.isEmpty then [] else '.' :: part) ++ 'e' ::
    (if power < 0 then '-' else '+') :: Nat.toDigits 10 power.natAbs

/-- A finite number that is not negative. -/
def magnitudeText (x : Float) : List Char :=
  if x == 0 then ['0', '.', '0']
  else
    let decimal := (Shortest.Binary.ofFloat x).shortest
    let digits := Nat.toDigits 10 decimal.digits
    let power := digits.length + decimal.exponent - 1
    if -5 ≤ power && power < 16 then plainText digits decimal.exponent
    else exponentText digits decimal.exponent

/-- A number as it stands in a JSON text. -/
def floatText (x : Float) : String :=
  if x.isFinite then
    String.ofList (Numeral.signText (Binary64.isNegative x) ++ magnitudeText x)
  else "null"

end LinProg.Json
