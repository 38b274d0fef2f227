import LinProg.Model.Statement
import LinProg.Record.Json

/-!
# Models as JSON

The JSON form of the statements of a model, with the bytes where they stand. Where an object is
expected, an array of all its parts will do.
-/

namespace LinProg

variable {K N : Type} [Scalar K]

def nameToJson (name : Option String) : Json K := name.elim .null .string

def Span.toJson (s : Span) : Json K :=
  .object [("start", .count s.start), ("end", .count s.stop)]

def Span.ofJson? (j : Json N) : Option Span := do
  let fields ← j.parts? ["start", "end"] []
  let start ← Json.required Json.count? "start" fields
  let stop ← Json.required Json.count? "end" fields
  return ⟨start, stop⟩

def Term.toJson (t : Term K) : Json K :=
  .object [("span", t.span.toJson), ("coefficient", .ofNumber t.coefficient),
    ("variable", nameToJson t.name)]

def Term.ofJson? (read : N → Option K) (j : Json N) : Option (Term K) := do
  let fields ← j.parts? ["span", "coefficient", "variable"] []
  let span ← Json.required Span.ofJson? "span" fields
  let coefficient ← Json.required (Json.scalar? read) "coefficient" fields
  let name ← Json.optional Json.string? "variable" fields
  return { span, coefficient, name }

namespace Statement

def toJson : Statement K → Json K
  | objective o =>
      .object [("Objective", .object [("span", o.span.toJson), ("sense", .string o.sense.name),
        ("terms", .ofList Term.toJson o.terms)])]
  | constraint c =>
      .object [("Constraint", .object [("span", c.span.toJson), ("name", nameToJson c.name),
        ("terms", .ofList Term.toJson c.terms), ("op", c.relation.toJson),
        ("rhs", .ofNumber c.rhs)])]

def objectiveOfJson? (read : N → Option K) (j : Json N) : Option (Statement K) := do
  let fields ← j.parts? ["span", "sense", "terms"] []
  let span ← Json.required Span.ofJson? "span" fields
  let sense ← Json.required Sense.ofJson? "sense" fields
  let terms ← Json.required (Json.list? (Term.ofJson? read)) "terms" fields
  return .objective { span, sense, terms }

def constraintOfJson? (read : N → Option K) (j : Json N) : Option (Statement K) := do
  let fields ← j.parts? ["span", "name", "terms", "op", "rhs"] []
  let span ← Json.required Span.ofJson? "span" fields
  let name ← Json.optional Json.string? "name" fields
  let terms ← Json.required (Json.list? (Term.ofJson? read)) "terms" fields
  let relation ← Json.required Relation.ofJson? "op" fields
  let rhs ← Json.required (Json.scalar? read) "rhs" fields
  return .constraint { span, name, terms, relation, rhs }

def ofJson? (read : N → Option K) (j : Json N) : Option (Statement K) :=
  match j.fields? with
  | some [("Objective", value)] => objectiveOfJson? read value
  | some [("Constraint", value)] => constraintOfJson? read value
  | _ => none

end Statement

def Model.toJson (m : Model K) : Json K :=
  .object [("statements", .ofList Statement.toJson m.statements)]

def Model.ofJson? (read : N → Option K) (j : Json N) : Option (Model K) := do
  let fields ← j.parts? ["statements"] []
  let statements ← Json.required (Json.list? (Statement.ofJson? read)) "statements" fields
  return ⟨statements⟩

end LinProg
