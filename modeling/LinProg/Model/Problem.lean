import LinProg.Model.Compile
import LinProg.Model.Read

/-!
# Problems stated by texts

A text states a problem if it reads as a model and the model states one. What is wrong with a
text is shown to its author as a diagnostic.
-/

namespace LinProg

/-- Why a text states no problem. -/
inductive ModelError where
  | read (error : ReadError)
  | compile (error : CompileError)
  deriving DecidableEq

namespace ModelError

def message : ModelError → String
  | read e => e.message
  | compile e => e.message

/-- Where a fault lies, if it lies at one place. -/
def span? : ModelError → Option Span
  | read e => e.span?
  | compile e => some e.span

end ModelError

/-- The problem that a text states. -/
def Problem.ofText? {K : Type} [Scalar K] (text : List Char) : Except ModelError (Problem K) :=
  match (Model.ofText? text : Except ReadError (Model K)) with
  | .error e => .error (.read e)
  | .ok model =>
      match model.compile with
      | .error e => .error (.compile e)
      | .ok problem => .ok problem

/-- A remark on a range of bytes. -/
structure Diagnostic where
  span : Span
  severity : String
  message : String
  deriving DecidableEq

/-- The remark on a fault of a text. A fault without a place concerns the whole text. -/
def ModelError.diagnostic (text : List Char) (e : ModelError) : Diagnostic :=
  { span := e.span?.getD ⟨0, byteLength text⟩
    severity := "error"
    message := match e with
      | .read e => "Syntax error: " ++ e.message
      | .compile e => e.message }

def diagnostics (K : Type) [Scalar K] (text : List Char) : List Diagnostic :=
  match (Problem.ofText? text : Except ModelError (Problem K)) with
  | .ok _ => []
  | .error e => [e.diagnostic text]

end LinProg
