import LinProg.Model.Read

/-!
# The grammar of models

A derivation is a tree whose leaves are tokens of the kinds that the grammar asks for. It spells
the tokens at its leaves, from left to right, and it means the model that its parts stand for.
Nothing is said here of how tokens are read.
-/
namespace LinProg.Grammar

/-- A token of one of the given kinds. -/
abbrev Leaf (kinds : List Token.Kind) : Type := { t : Token // t.kind ∈ kinds }

abbrev Number := Leaf [.number]
abbrev Name := Leaf [.ident]
abbrev Sign := Leaf [.plus, .minus]
abbrev Separator := Leaf [.newline, .semicolon]

/-- What a term is without the sign before it. -/
inductive Factor where
  | constant (number : Number)
  | product (number : Number) (star : Option (Leaf [.star])) (name : Name)
  | lone (name : Name)

/-- The minus sign of the factor is part of its number. -/
def Factor.isGlued : Factor → Bool
  | constant number | product number _ _ => number.val.isNegative
  | lone _ => false

/-- A term that is not the first of its sum. -/
inductive Addend where
  | signed (sign : Sign) (factor : Factor)
  | glued (factor : Factor) (glued : factor.isGlued = true)

structure Sum where
  sign : Option Sign
  first : Factor
  rest : List Addend

inductive Statement where
  | objective (keyword : Leaf [.max, .min]) (colon : Option (Leaf [.colon])) (sum : Option Sum)
  | constraint (label : Option (Name × Leaf [.colon])) (sum : Option Sum)
      (relation : Leaf [.le, .ge, .eq]) (sign : Option Sign) (rhs : Number)

/-- One or more separators and the statement after them. -/
structure Successor where
  separator : Separator
  others : List Separator
  statement : Statement

structure Body where
  first : Statement
  rest : List Successor
  trailing : List Separator

structure Model where
  leading : List Separator
  body : Option Body

/-- The token of an optional leaf. -/
def leaf {kinds : List Token.Kind} (t : Option (Leaf kinds)) : List Token :=
  t.elim [] fun t => [t.val]

@[simp] theorem leaf_none {kinds : List Token.Kind} : leaf (none : Option (Leaf kinds)) = [] := rfl

@[simp] theorem leaf_some {kinds : List Token.Kind} (t : Leaf kinds) :
    leaf (some t) = [t.val] := rfl

def separators (leaves : List Separator) : List Token := leaves.flatMap fun t => [t.val]

def Factor.tokens : Factor → List Token
  | constant number => [number.val]
  | product number star name => number.val :: (leaf star ++ [name.val])
  | lone name => [name.val]

def Addend.tokens : Addend → List Token
  | signed sign factor => sign.val :: factor.tokens
  | glued factor _ => factor.tokens

def Sum.tokens (s : Sum) : List Token :=
  leaf s.sign ++ s.first.tokens ++ s.rest.flatMap Addend.tokens

def sumTokens (sum : Option Sum) : List Token := sum.elim [] Sum.tokens

def labelTokens (label : Option (Name × Leaf [.colon])) : List Token :=
  label.elim [] fun l => [l.1.val, l.2.val]

def Statement.tokens : Statement → List Token
  | objective keyword colon sum => keyword.val :: (leaf colon ++ sumTokens sum)
  | constraint label sum relation sign rhs =>
      labelTokens label ++ sumTokens sum ++ relation.val :: (leaf sign ++ [rhs.val])

def Successor.tokens (s : Successor) : List Token :=
  s.separator.val :: (separators s.others ++ s.statement.tokens)

def Body.tokens (b : Body) : List Token :=
  b.first.tokens ++ b.rest.flatMap Successor.tokens ++ separators b.trailing

def Model.tokens (m : Model) : List Token := separators m.leading ++ m.body.elim [] Body.tokens

variable {K : Type} [Scalar K]

/-- The range from the first of the tokens to the last. -/
def extent (tokens : List Token) : Span :=
  ⟨(tokens.head?.map (·.span.start)).getD 0, (tokens.getLast?.map (·.span.stop)).getD 0⟩

/-- The value of the literal that a token holds. -/
def value (t : Token) : K := (Literal.value? t.text).getD 0

def isMinus (sign : Option Sign) : Bool := sign.any fun s => s.val.kind == .minus

/-- The coefficient after a sign: one where the factor holds no number. -/
def Factor.coefficient (negative : Bool) : Factor → K
  | constant number | product number _ _ => Read.signed negative (value number.val)
  | lone _ => Read.signed negative 1

def Factor.name? : Factor → Option String
  | constant _ => none
  | product _ _ name | lone name => some (String.ofList name.val.text)

def termOf (sign : Option Sign) (factor : Factor) : Term K :=
  ⟨extent (leaf sign ++ factor.tokens), factor.coefficient (isMinus sign), factor.name?⟩

def Addend.term : Addend → Term K
  | signed sign factor => termOf (some sign) factor
  | glued factor _ => termOf none factor

def Sum.terms (s : Sum) : List (Term K) := termOf s.sign s.first :: s.rest.map Addend.term

def sumTerms (sum : Option Sum) : List (Term K) := sum.elim [] Sum.terms

def senseOf (keyword : Leaf [.max, .min]) : Sense :=
  if keyword.val.kind = .min then .min else .max

def labelName (label : Option (Name × Leaf [.colon])) : Option String :=
  label.map fun l => String.ofList l.1.val.text

def relationOf (relation : Leaf [.le, .ge, .eq]) : Relation :=
  match relation.val.kind with
  | .le => .le
  | .ge => .ge
  | _ => .eq

def Statement.meaning (s : Statement) : LinProg.Statement K :=
  match s with
  | objective keyword _ sum => .objective ⟨extent s.tokens, senseOf keyword, sumTerms sum⟩
  | constraint label sum relation sign rhs =>
      .constraint
        { span := extent s.tokens
          name := labelName label
          terms := sumTerms sum
          relation := relationOf relation
          rhs := Read.signed (isMinus sign) (value rhs.val) }

def Body.statements (b : Body) : List Statement := b.first :: b.rest.map Successor.statement

def Model.statements (m : Model) : List Statement := m.body.elim [] Body.statements

def Model.meaning (m : Model) : LinProg.Model K := ⟨m.statements.map Statement.meaning⟩

end LinProg.Grammar
