import LinProg.Json.Value
import LinProg.Record.Basic

/-!
# Records as JSON

The JSON form of a record. The toggles are left out where they are not set. Reading accepts the
mathematical signs of the relations, too, and passes over fields that it does not know. A record
may also be an array of its parts.
-/

namespace LinProg

/-- The first of the given values whose name is the given one. -/
def ofName? {A : Type} (name : A → String) (values : List A) (text : String) : Option A :=
  values.find? fun a => name a == text

namespace Sense

def ofJson? {N : Type} (j : Json N) : Option Sense :=
  j.choice?.bind (ofName? name [max, min])

end Sense

namespace Relation

/-- The relation that a text names by its spelling or its mathematical sign. -/
def ofText? (text : String) : Option Relation :=
  (ofName? spelling [le, ge, eq] text).or (ofName? symbol [le, ge, eq] text)

def ofJson? {N : Type} (j : Json N) : Option Relation := j.choice?.bind ofText?

def toJson {N : Type} (r : Relation) : Json N := .string r.spelling

end Relation

namespace Toggle

def ofJson? {N : Type} (j : Json N) : Option Toggle :=
  j.choice?.bind (ofName? spelling [plus, minus])

def toJson {N : Type} (t : Toggle) : Json N := .string t.spelling

end Toggle

namespace Record

variable {K N : Type} [Scalar K]

/-- A field that is left out where there is no value. -/
def optionalField {A : Type} (name : String) (encode : A → Json K) :
    Option A → List (String × Json K)
  | none => []
  | some a => [(name, encode a)]

def toJson (r : Record K) : Json K :=
  .object <|
    [("problemType", .string r.sense.name),
      ("objectiveFunction", .ofList .ofNumber r.objective),
      ("constraintCoefficients", .ofList (.ofList .ofNumber) r.rows),
      ("constraintSigns", .ofList Relation.toJson r.signs),
      ("constraintValues", .ofList .ofNumber r.values)] ++
    optionalField "objectiveOperator" Toggle.toJson r.objectiveToggle ++
    optionalField "constraintOperators" (.ofList Toggle.toJson) r.constraintToggles

/-- The record that a JSON value holds, whose numbers are read by the given function. -/
def ofJson? (read : N → Option K) (j : Json N) : Option (Record K) := do
  let fields ← j.parts?
    ["problemType", "objectiveFunction", "constraintCoefficients", "constraintSigns",
      "constraintValues"]
    ["objectiveOperator", "constraintOperators"]
  let number := Json.scalar? read
  let sense ← Json.required Sense.ofJson? "problemType" fields
  let objective ← Json.required (Json.list? number) "objectiveFunction" fields
  let rows ← Json.required (Json.list? (Json.list? number)) "constraintCoefficients" fields
  let signs ← Json.required (Json.list? Relation.ofJson?) "constraintSigns" fields
  let values ← Json.required (Json.list? number) "constraintValues" fields
  let objectiveToggle ← Json.optional Toggle.ofJson? "objectiveOperator" fields
  let constraintToggles ← Json.optional (Json.list? Toggle.ofJson?) "constraintOperators" fields
  return { sense, objective, rows, signs, values, objectiveToggle, constraintToggles }

end Record

end LinProg
