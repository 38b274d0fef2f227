import LinProg.Json.Value

/-!
# Writing JSON texts

A value is written with one member per line, indented by two spaces for each level.
-/

namespace LinProg.Json

def hexChar (n : Nat) : Char := (Nat.toDigits 16 n).headD '0'

/-- A character as it stands in a string. -/
def escape : Char → List Char
  | '"' => ['\\', '"']
  | '\\' => ['\\', '\\']
  | '\x08' => ['\\', 'b']
  | '\x0c' => ['\\', 'f']
  | '\n' => ['\\', 'n']
  | '\r' => ['\\', 'r']
  | '\t' => ['\\', 't']
  | c =>
      if c.toNat < 32 then
        ['\\', 'u', '0', '0', hexChar (c.toNat / 16), hexChar (c.toNat % 16)]
      else [c]

def quoted (text : String) : String :=
  "\"" ++ String.ofList (text.toList.flatMap escape) ++ "\""

/-- The start of a line at a level. -/
def newline (level : Nat) : String := "\n" ++ String.ofList (List.replicate (2 * level) ' ')

/-- The members of an array or object between its brackets. -/
def bracketed (level : Nat) (opening closing : String) (members : List String) : String :=
  if members.isEmpty then opening ++ closing
  else
    opening ++ newline (level + 1) ++ ("," ++ newline (level + 1)).intercalate members ++
      newline level ++ closing

variable {N : Type}

mutual

/-- A value at a level, with numbers written by the given function. -/
def pretty (number : N → String) (level : Nat) : Json N → String
  | garbled => "null"
  | null => "null"
  | bool value => if value then "true" else "false"
  | count value => value.repr
  | .number value => number value
  | string value => quoted value
  | array items => bracketed level "[" "]" (prettyItems number (level + 1) items)
  | object fields => bracketed level "\x7b" "\x7d" (prettyFields number (level + 1) fields)

def prettyItems (number : N → String) (level : Nat) : List (Json N) → List String
  | [] => []
  | item :: rest => pretty number level item :: prettyItems number level rest

def prettyFields (number : N → String) (level : Nat) : List (String × Json N) → List String
  | [] => []
  | (name, value) :: rest =>
      (quoted name ++ ": " ++ pretty number level value) :: prettyFields number level rest

end

end LinProg.Json
