import LinProg.CommandLine.Arguments
import LinProg.Json.Read
import LinProg.Json.Write
import LinProg.Model.Problem
import LinProg.Plane.Region
import LinProg.Record.Json
import LinProg.Solver.Basic
import LinProg.Solver.Report

/-!
# Commands

What the commands print, as a function of the file that they are given. Files whose extension is
`json` hold records, all others hold model texts.
-/

namespace LinProg.CommandLine

/-- What a command leaves behind. -/
structure Output where
  exitCode : Nat
  stdout : String
  stderr : String
  deriving DecidableEq

def Output.failure (message : String) : Output := ⟨1, "", message ++ "\n"⟩

/-- The output of a command that is asked for in the wrong way. -/
def Output.usage : Output := ⟨2, "", ""⟩

def Output.success (text : String) : Output := ⟨0, text, ""⟩

/-- The last part of a path. -/
def fileName (path : List Char) : List Char :=
  ((Text.dropTrailing (· == '/') path).reverse.takeWhile (· != '/')).reverse

/-- What follows the last point of a file name, unless the point is the first character. -/
def extension? (path : List Char) : Option (List Char) :=
  let name := fileName path
  let stem := (name.reverse.dropWhile (· != '.')).drop 1
  if stem.isEmpty || name = ['.', '.'] then none
  else some (name.reverse.takeWhile (· != '.')).reverse

def holdsRecord (path : String) : Bool :=
  (extension? path.toList).any fun e => e.map Char.toLower == "json".toList

variable {K : Type} [Scalar K]

/-- The problem of a file that holds a record. What is wrong with a text that is no record is
not told. -/
def problemOfRecord (content : String) : Except String (Problem K) :=
  let record := (Json.ofText? content.toList).bind (Record.ofJson? Json.Decimal.value?)
  match record with
  | none => .error "Invalid problem record: <decode>"
  | some (r : Record K) =>
      r.toProblem.mapError fun e => "Invalid problem record: " ++ e.message

def loadProblem (path : String) : Except String String → Except String (Problem K)
  | .error e => .error ("Error reading file: " ++ e)
  | .ok content =>
      if holdsRecord path then problemOfRecord content
      else (Problem.ofText? content.toList).mapError fun e => "Error: " ++ e.message

/-- A value as pretty JSON on lines of its own. -/
def jsonText (number : K → String) (value : Json K) : String := value.pretty number 0 ++ "\n"

variable [Printable K]

/-- A problem as a model text. -/
def problemText (p : Problem K) : String :=
  let objective := p.objective.sense.name ++ ": " ++
    Display.linearExpression p.objective.coefficients p.names ++ "\n"
  let line (c : Constraint K) := c.name ++ ": " ++
    Display.linearExpression c.coefficients p.names ++ " " ++ c.relation.symbol ++ " " ++
    Display.short c.rhs ++ "\n"
  objective ++ String.join (p.constraints.map line)

/-- A number with four places. -/
def fourPlaces (x : K) : String := String.ofList ((Printable.numeral x).signedText 4)

/-- The line of a variable and its value. -/
def valueLine (name : String) (value : K) : String :=
  let number := fourPlaces value
  "  " ++ name ++ String.ofList (List.replicate (10 - name.length) ' ') ++ " " ++
    String.ofList (List.replicate (12 - number.length) ' ') ++ number ++ "\n"

/-- A solution of a problem as text. -/
def solutionText (p : Problem K) (s : Solution K) : String :=
  let method := s.method.elim "" fun m => "Method: " ++ m.name ++ "\n"
  let status := "Status: " ++ String.ofList (s.status.name.toList.map Char.toUpper) ++ "\n"
  let details :=
    if s.isValid then
      "Objective value: " ++ fourPlaces s.value ++ "\n\n" ++
        String.join (List.zipWith valueLine p.names s.coordinates) ++ "\n" ++
        s.table.render
    else ""
  method ++ status ++ details

def cornerText (v : Point K) : String :=
  "(" ++ Display.short v.x ++ ", " ++ Display.short v.y ++ ")\n"

/-- What is printed about the problem of a file without solving it. -/
def checkOutput (p : Problem K) : Output :=
  match p.fault? with
  | some fault => .failure ("Error: " ++ fault.message)
  | none =>
      .success ("OK: " ++ p.size.repr ++ " variables, " ++ p.constraints.length.repr ++
        " constraints\n")

def parseOutput (number : K → String) (p : Problem K) : Format → Output
  | .pretty => .success (problemText p)
  | .json => .success (jsonText number p.toRecord.toJson)

variable [Polar K]

def solveOutput (number : K → String) (p : Problem K) (method : Method) (format : Format)
    (maxIterations : Nat) : Output :=
  let solution := Solver.solve { Solver.default with maxIterations } p method
  let text := match format with
    | .pretty => solutionText p solution
    | .json => jsonText number solution.toJson
  ⟨if solution.isValid then 0 else 1, text, ""⟩

def regionOutput (p : Problem K) : Output :=
  if p.size ≠ 2 then
    .failure ("Error: a feasible region needs exactly 2 variables, got " ++ p.size.repr)
  else
    match p.normalized.region with
    | [] => .failure "The feasible region is empty"
    | corners => .success (String.join (corners.map cornerText))

def Command.file : Command → String
  | solve file _ _ _ | check file | parse file _ | region file => file

def Command.output (number : K → String) (p : Problem K) : Command → Output
  | solve _ method format maxIterations => solveOutput number p method format maxIterations
  | check _ => checkOutput p
  | parse _ format => parseOutput number p format
  | region _ => regionOutput p

/-- What a command leaves behind, given the content of its file or why there is none. -/
def Command.run (number : K → String) (command : Command) (content : Except String String) :
    Output :=
  match (loadProblem command.file content : Except String (Problem K)) with
  | .error message => .failure message
  | .ok p => command.output number p

end LinProg.CommandLine
