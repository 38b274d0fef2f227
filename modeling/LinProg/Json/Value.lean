import LinProg.Scalar.Basic

/-!
# JSON values

A JSON value over a type of numbers. Counts are kept apart from other numbers: they are the
numbers without sign, point and exponent.
-/

namespace LinProg

/-- A JSON value whose numbers are counts or members of `N`. -/
inductive Json (N : Type) where
  /-- A value in which a string stands for no text: half of a surrogate pair is written in it. -/
  | garbled
  | null
  | bool (value : Bool)
  | count (value : Nat)
  | number (value : N)
  | string (value : String)
  | array (items : List (Json N))
  | object (fields : List (String × Json N))

namespace Json

variable {N : Type}

def ofList {A : Type} (encode : A → Json N) (xs : List A) : Json N := .array (xs.map encode)

/-- A number as JSON, in which infinities and undefined values are null. -/
def ofNumber {K : Type} [Scalar K] (x : K) : Json K :=
  if Scalar.isFinite x then .number x else .null

def items? : Json N → Option (List (Json N))
  | array items => some items
  | _ => none

def fields? : Json N → Option (List (String × Json N))
  | object fields => some fields
  | _ => none

def string? : Json N → Option String
  | string value => some value
  | _ => none

def count? : Json N → Option Nat
  | count value => some value
  | _ => none

/-- A number, read by the given function if it is not a count. -/
def scalar? {K : Type} [Scalar K] (read : N → Option K) : Json N → Option K
  | count value => some (Scalar.ofNat value)
  | number value => read value
  | _ => none

/-- What an array holds, if each of its members can be decoded. -/
def list? {A : Type} (decode : Json N → Option A) (j : Json N) : Option (List A) :=
  j.items?.bind fun items => items.mapM decode

/-- The values of a field. -/
def valuesOf (name : String) (fields : List (String × Json N)) : List (Json N) :=
  (fields.filter fun f => f.1 == name).map Prod.snd

/-- The named parts of a value: the fields of an object, or the members of an array in the order
of the names. An array must hold the parts that are `needed`, and may go on with `further` ones. -/
def parts? (needed further : List String) : Json N → Option (List (String × Json N))
  | object fields => some fields
  | array items =>
      let names := needed ++ further
      if needed.length ≤ items.length && items.length ≤ names.length then some (names.zip items)
      else none
  | _ => none

/-- The text that names a choice: a string, or the name of the only field of an object, which is
null. -/
def choice? : Json N → Option String
  | string name => some name
  | object [(name, null)] => some name
  | _ => none

/-- What the field of a name holds. The field must be there once. -/
def required {A : Type} (decode : Json N → Option A) (name : String)
    (fields : List (String × Json N)) : Option A :=
  match valuesOf name fields with
  | [value] => decode value
  | _ => none

/-- What the field of a name holds, if it is there and not null. It must not be there twice. -/
def optional {A : Type} (decode : Json N → Option A) (name : String)
    (fields : List (String × Json N)) : Option (Option A) :=
  match valuesOf name fields with
  | [] => some none
  | [.null] => some none
  | [value] => (decode value).map some
  | _ => none

end Json

end LinProg
