import LinProg.Model.Json
import LinProg.Model.Problem
import LinProg.Plane.Region
import LinProg.Solver.Basic
import LinProg.Solver.Report

/-!
# The service for front ends

Front ends hand over records and texts and get JSON. A text or record that states no problem is
answered by the sentence that says why.
-/

namespace LinProg.Service

variable {K : Type} [Scalar K]

def pointJson (p : Point K) : Json K := .object [("x", .ofNumber p.x), ("y", .ofNumber p.y)]

def diagnosticJson (d : Diagnostic) : Json K :=
  .object [("start", .count d.span.start), ("end", .count d.span.stop),
    ("severity", .string d.severity), ("message", .string d.message)]

/-- The problem that a text states, or the sentence that says why it states none. -/
def problemOfText (text : List Char) : Except String (Problem K) :=
  (Problem.ofText? text).mapError ModelError.message

/-- The statements of a text. -/
def parse (text : List Char) : Except String (Json K) :=
  ((Model.ofText? text).map Model.toJson).mapError ReadError.message

/-- The record of the problem that a text states. -/
def compile (text : List Char) : Except String (Json K) :=
  (problemOfText text).map fun p => p.toRecord.toJson

def validate (text : List Char) : Json K := .ofList diagnosticJson (diagnostics K text)

variable [Polar K]

/-- The region of the problem that a record states. -/
def region (r : Record K) : Except String (Json K) :=
  (r.toProblem.map fun p => Json.ofList pointJson p.normalized.region).mapError Failure.message

variable [Printable K]

/-- The solution of a record by the method of a name. -/
def solveRecord (r : Record K) (method : String) : Solution K :=
  match r.toProblem with
  | .ok p => Solver.default.solve p (Method.ofName method)
  | .error e => .failed e.status none

/-- The solution of the problem that a text states by the method of a name. -/
def solveText (text : List Char) (method : String) : Except String (Solution K) :=
  (problemOfText text).map fun p => Solver.default.solve p (Method.ofName method)

end LinProg.Service
