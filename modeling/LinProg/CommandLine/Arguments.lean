import LinProg.Solver.Method

/-!
# Arguments

A command has one file and options, which may come in any order and once each. The value of an
option is attached to it or is the next argument. After two hyphens all arguments are operands.
-/

namespace LinProg.CommandLine

inductive Format where
  | pretty
  | json
  deriving DecidableEq

/-- What a caller asks for. -/
inductive Command where
  | solve (file : String) (method : Method) (format : Format) (maxIterations : Nat)
  | check (file : String)
  | parse (file : String) (format : Format)
  | region (file : String)
  deriving DecidableEq

/-- The options. -/
inductive Setting where
  | method
  | format
  | maxIterations
  deriving DecidableEq

namespace Setting

def longName : Setting → List Char
  | method => "method".toList
  | format => "format".toList
  | maxIterations => "max-iterations".toList

def letter? : Setting → Option Char
  | method => some 'm'
  | format => some 'f'
  | maxIterations => none

end Setting

/-- What a single argument is. -/
inductive Shape where
  | operand
  /-- Two hyphens. -/
  | terminator
  | attached (setting : Setting) (value : List Char)
  /-- An option whose value is the next argument. -/
  | awaiting (setting : Setting)
  | unknown
  deriving DecidableEq

/-- The option of a long name with what follows the name. -/
def longShape (settings : List Setting) (text : List Char) : Shape :=
  let name := text.takeWhile (· != '=')
  match settings.find? (·.longName == name), text.dropWhile (· != '=') with
  | none, _ => .unknown
  | some setting, [] => .awaiting setting
  | some setting, _ :: value => .attached setting value

/-- The option of a letter with what follows the letter. -/
def shortShape (settings : List Setting) (letter : Char) (rest : List Char) : Shape :=
  match settings.find? (·.letter? == some letter), rest with
  | none, _ => .unknown
  | some setting, [] => .awaiting setting
  | some setting, '=' :: value => .attached setting value
  | some setting, value => .attached setting value

def shape (settings : List Setting) (argument : String) : Shape :=
  match argument.toList with
  | ['-', '-'] => .terminator
  | '-' :: '-' :: text => longShape settings text
  | '-' :: letter :: rest => shortShape settings letter rest
  | _ => .operand

/-- The arguments of a command, sorted. -/
structure Parts where
  operands : List String
  settings : List (Setting × String)

/-- The arguments of a command where the given options are known. -/
def parts? (settings : List Setting) : List String → Option Parts
  | [] => some ⟨[], []⟩
  | argument :: rest =>
      match shape settings argument with
      | .unknown => none
      | .terminator => some ⟨rest, []⟩
      | .operand => (parts? settings rest).map fun p => { p with operands := argument :: p.operands }
      | .attached setting value =>
          (parts? settings rest).map fun p =>
            { p with settings := (setting, String.ofList value) :: p.settings }
      | .awaiting setting =>
          match rest with
          | [] => none
          | value :: rest =>
              -- what looks like an option is not taken for a value
              if shape settings value = .operand then
                (parts? settings rest).map fun p =>
                  { p with settings := (setting, value) :: p.settings }
              else none

/-- The file among the operands, which must be the only one and have a name. -/
def Parts.file? (p : Parts) : Option String :=
  match p.operands with
  | [file] => if file = "" then none else some file
  | _ => none

/-- The value of an option, which must not be given twice. -/
def Parts.value? {A : Type} (p : Parts) (setting : Setting) (default : A)
    (read : String → Option A) : Option A :=
  match p.settings.filter (·.1 == setting) with
  | [] => some default
  | [(_, value)] => read value
  | _ => none

def Format.ofName? (name : String) : Option Format :=
  if name = "pretty" then some .pretty
  else if name = "json" then some .json
  else none

/-- A count below `2 ^ 64`, with or without a plus sign. -/
def count? (text : String) : Option Nat :=
  let digits := match text.toList with
    | '+' :: rest => rest
    | other => other
  if digits.isEmpty || !digits.all Char.isDigit then none
  else
    let value := digits.foldl (fun n c => 10 * n + (c.toNat - '0'.toNat)) 0
    if value < UInt64.size then some value else none

/-- The command that arguments state. -/
def Command.ofArguments? : List String → Option Command
  | "solve" :: rest => do
      let parts ← parts? [.method, .format, .maxIterations] rest
      let file ← parts.file?
      let method ← parts.value? .method .graphical Method.ofName?
      let format ← parts.value? .format .pretty Format.ofName?
      let maxIterations ← parts.value? .maxIterations 100 count?
      return .solve file method format maxIterations
  | "check" :: rest => do
      let parts ← parts? [] rest
      return .check (← parts.file?)
  | "parse" :: rest => do
      let parts ← parts? [.format] rest
      let file ← parts.file?
      let format ← parts.value? .format .pretty Format.ofName?
      return .parse file format
  | "region" :: rest => do
      let parts ← parts? [] rest
      return .region (← parts.file?)
  | _ => none

end LinProg.CommandLine
