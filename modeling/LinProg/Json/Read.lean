import LinProg.Json.Number
import LinProg.Json.Value

/-!
# Reading JSON texts

A JSON text is one value with blanks around it. Control characters must be escaped in strings.
A string with half of a surrogate pair is well formed but stands for no text: it is read as a
garbled value, and so is an object with such a name.
-/

namespace LinProg.Json

/-- Whether a character may stand between the parts of a JSON text. -/
def isBlank (c : Char) : Bool := c == ' ' || c == '\n' || c == '\t' || c == '\r'

def hexDigit? (c : Char) : Option Nat :=
  if c.isDigit then some (c.toNat - '0'.toNat)
  else if 'a' ≤ c && c ≤ 'f' then some (c.toNat - 'a'.toNat + 10)
  else if 'A' ≤ c && c ≤ 'F' then some (c.toNat - 'A'.toNat + 10)
  else none

/-- The number that four hexadecimal digits stand for. -/
def hexWord? (a b c d : Char) : Option Nat := do
  let a ← hexDigit? a
  let b ← hexDigit? b
  let c ← hexDigit? c
  let d ← hexDigit? d
  return ((a * 16 + b) * 16 + c) * 16 + d

/-- The character that an escape of one letter stands for. -/
def escaped? : Char → Option Char
  | '"' => some '"'
  | '\\' => some '\\'
  | '/' => some '/'
  | 'b' => some '\x08'
  | 'f' => some '\x0c'
  | 'n' => some '\n'
  | 'r' => some '\r'
  | 't' => some '\t'
  | _ => none

def isHighSurrogate (word : Nat) : Bool := 0xd800 ≤ word && word < 0xdc00

def isLowSurrogate (word : Nat) : Bool := 0xdc00 ≤ word && word < 0xe000

/-- The character of two code points that are the halves of a surrogate pair. -/
def pairChar? (high low : Nat) : Option Char :=
  if isHighSurrogate high && isLowSurrogate low then
    some (Char.ofNat (0x10000 + (high - 0xd800) * 0x400 + (low - 0xdc00)))
  else none

/-- The character of a code point that is no surrogate. -/
def codeChar? (code : Nat) : Option Char :=
  if isHighSurrogate code || isLowSurrogate code then none else some (Char.ofNat code)

/-- The text of a run of code points, in which surrogates stand in pairs. -/
def decode? : List Nat → Option (List Char)
  | [] => some []
  | [code] => (codeChar? code).map ([·])
  | code :: next :: rest =>
      match pairChar? code next with
      | some char => (decode? rest).map (char :: ·)
      | none => do
          let char ← codeChar? code
          let text ← decode? (next :: rest)
          return char :: text

/-- The code points of a string up to its closing quote, and what follows it. Surrogates can only
come from escapes. -/
def readCodes : List Char → Option (List Nat × List Char)
  | '"' :: rest => some ([], rest)
  | '\\' :: 'u' :: a :: b :: c :: d :: rest => do
      let code ← hexWord? a b c d
      let (codes, rest) ← readCodes rest
      return (code :: codes, rest)
  | '\\' :: c :: rest => do
      let char ← escaped? c
      let (codes, rest) ← readCodes rest
      return (char.toNat :: codes, rest)
  | c :: rest =>
      if c.toNat < 32 || c == '\\' then none
      else do
        let (codes, rest) ← readCodes rest
        return (c.toNat :: codes, rest)
  | [] => none

/-- The text of a string up to its closing quote, if it has one, and what follows it. -/
def readString (text : List Char) : Option (Option String × List Char) :=
  (readCodes text).map fun (codes, rest) => ((decode? codes).map String.ofList, rest)

/-- The digits after a point, if there is a point. -/
def readFraction : List Char → Option (List Char × List Char)
  | '.' :: rest =>
      let digits := rest.takeWhile Char.isDigit
      if digits.isEmpty then none else some (digits, rest.dropWhile Char.isDigit)
  | rest => some ([], rest)

/-- The exponent after a sign. -/
def readExponentDigits (negative : Bool) (text : List Char) : Option (Int × List Char) :=
  let digits := text.takeWhile Char.isDigit
  if digits.isEmpty then none
  else
    let size : Int := Literal.digitsValue digits
    some (if negative then -size else size, text.dropWhile Char.isDigit)

/-- The exponent of a number, zero if none is written. -/
def readExponent : List Char → Option (Int × List Char)
  | c :: rest =>
      if c == 'e' || c == 'E' then
        match rest with
        | '+' :: rest => readExponentDigits false rest
        | '-' :: rest => readExponentDigits true rest
        | rest => readExponentDigits false rest
      else some (0, c :: rest)
  | [] => some (0, [])

/-- A number without its sign. Only zero begins with the digit zero. -/
def readMagnitude (negative : Bool) (text : List Char) :
    Option (Json Decimal × List Char) := do
  let whole := text.takeWhile Char.isDigit
  if whole.isEmpty || (whole.head? == some '0' && whole.length ≠ 1) then none
  let afterWhole := text.dropWhile Char.isDigit
  let (part, afterPart) ← readFraction afterWhole
  let (exponent, rest) ← readExponent afterPart
  let number : Decimal := { negative, whole, part, exponent }
  -- a count is all digits: neither a point nor an exponent has been read
  if !negative && rest.length == afterWhole.length && number.digits < UInt64.size then
    return (.count number.digits, rest)
  else return (.number number, rest)

def readNumber : List Char → Option (Json Decimal × List Char)
  | '-' :: rest => readMagnitude true rest
  | text => readMagnitude false text

/-- The name of a field, if it has one, with the colon after it. -/
def readKey (text : List Char) : Option (Option String × List Char) :=
  match text.dropWhile isBlank with
  | '"' :: rest => do
      let (name, rest) ← readString rest
      match rest.dropWhile isBlank with
      | ':' :: rest => some (name, rest)
      | _ => none
  | _ => none

/-- The object with the given fields, of which each must have a name. -/
def objectOf (fields : List (Option String × Json Decimal)) : Json Decimal :=
  match fields.mapM fun (name, value) => name.map (·, value) with
  | some fields => .object fields
  | none => .garbled

mutual

/-- The first value of a text. -/
def readValue : Nat → List Char → Option (Json Decimal × List Char)
  | 0, _ => none
  | fuel + 1, text =>
      match text.dropWhile isBlank with
      | 'n' :: 'u' :: 'l' :: 'l' :: rest => some (.null, rest)
      | 't' :: 'r' :: 'u' :: 'e' :: rest => some (.bool true, rest)
      | 'f' :: 'a' :: 'l' :: 's' :: 'e' :: rest => some (.bool false, rest)
      | '"' :: rest => (readString rest).map fun (text, rest) => (text.elim .garbled .string, rest)
      | '[' :: rest =>
          match rest.dropWhile isBlank with
          | ']' :: rest => some (.array [], rest)
          | rest => (readItems fuel rest).map fun (items, rest) => (.array items, rest)
      | '\x7b' :: rest =>
          match rest.dropWhile isBlank with
          | '\x7d' :: rest => some (.object [], rest)
          | rest => (readFields fuel rest).map fun (fields, rest) => (objectOf fields, rest)
      | rest => readNumber rest

/-- The members of an array that has some, up to its closing bracket. -/
def readItems : Nat → List Char → Option (List (Json Decimal) × List Char)
  | 0, _ => none
  | fuel + 1, text =>
      match readValue fuel text with
      | none => none
      | some (item, rest) =>
          match rest.dropWhile isBlank with
          | ',' :: rest => (readItems fuel rest).map fun (items, rest) => (item :: items, rest)
          | ']' :: rest => some ([item], rest)
          | _ => none

/-- The fields of an object that has some, up to its closing brace. -/
def readFields : Nat → List Char → Option (List (Option String × Json Decimal) × List Char)
  | 0, _ => none
  | fuel + 1, text =>
      match readKey text with
      | none => none
      | some (name, rest) =>
          match readValue fuel rest with
          | none => none
          | some (value, rest) =>
              match rest.dropWhile isBlank with
              | ',' :: rest =>
                  (readFields fuel rest).map fun (fields, rest) => ((name, value) :: fields, rest)
              | '\x7d' :: rest => some ([(name, value)], rest)
              | _ => none

end

/-- The value of a JSON text. Every member of an array or object takes at least one character,
which bounds the depth of the search. -/
def ofText? (text : List Char) : Option (Json Decimal) :=
  match readValue (2 * text.length + 2) text with
  | none => none
  | some (value, rest) => if (rest.dropWhile isBlank).isEmpty then some value else none

end LinProg.Json
