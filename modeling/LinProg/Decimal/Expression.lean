import LinProg.Decimal.Display

/-!
# Linear expressions

A linear expression is written as its nonzero terms with signs between them: `2x1 - x2 + 0.5x3`.
-/

namespace LinProg.Display

variable {K : Type} [Scalar K] [Printable K]

/-- The distance from one below which a coefficient is left out. -/
def unitTolerance : K := Scalar.ofDecimal 1 12

/-- The magnitude of a coefficient as it stands before a name. -/
def factorText (c : K) : String :=
  let magnitude := Scalar.abs c
  if Scalar.abs (magnitude - 1) < unitTolerance then "" else short magnitude

/-- The sign before a term. Where nothing is written yet, a plus is left out. -/
def termSign (atStart negative : Bool) : String :=
  match atStart, negative with
  | true, true => "-"
  | true, false => ""
  | false, true => " - "
  | false, false => " + "

def termText (atStart : Bool) (c : K) (name : String) : String :=
  termSign atStart (c < 0) ++ factorText c ++ name

/-- The nonzero terms of an expression, of which something may or may not be written already. -/
def termsText : Bool → List (K × String) → String
  | _, [] => ""
  | atStart, (c, name) :: rest =>
      if c == 0 then termsText atStart rest
      else
        let term := termText atStart c name
        term ++ termsText (atStart && term.isEmpty) rest

def linearExpression (coefficients : List K) (names : List String) : String :=
  let text := termsText true (coefficients.zip names)
  if text = "" then "0" else text

end LinProg.Display
