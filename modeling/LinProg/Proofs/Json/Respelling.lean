import LinProg.Json.Value
import Mathlib.Data.List.Forall2

/-!
# JSON values with other spellings

The signs `<=` and `>=` may be written by their mathematical symbols anywhere in a JSON value. For
each way of decoding a part of a value, one lemma says what it reads however the signs are spelled.
-/
namespace LinProg.Json
variable {N A : Type}

/-- The second value is the first one, in which any of the signs `<=` and `>=` may be written by
their symbols. -/
inductive Respelled : Json N → Json N → Prop
  | refl (j : Json N) : Respelled j j
  | le : Respelled (.string "<=") (.string "≤")
  | ge : Respelled (.string ">=") (.string "≥")
  | array {items others : List (Json N)} :
      List.Forall₂ Respelled items others → Respelled (.array items) (.array others)
  | object {fields others : List (String × Json N)} :
      fields.map Prod.fst = others.map Prod.fst →
      List.Forall₂ Respelled (fields.map Prod.snd) (others.map Prod.snd) →
      Respelled (.object fields) (.object others)

namespace Respelled

theorem eq_number {x : N} {other : Json N} (h : Respelled (.number x) other) :
    other = .number x := by
  cases h
  rfl

theorem string_cases {s : String} {other : Json N} (h : Respelled (.string s) other) :
    other = .string s ∨ s = "<=" ∧ other = .string "≤" ∨ s = ">=" ∧ other = .string "≥" := by
  cases h with
  | refl => exact .inl rfl
  | le => exact .inr (.inl ⟨rfl, rfl⟩)
  | ge => exact .inr (.inr ⟨rfl, rfl⟩)

theorem exists_items {items : List (Json N)} {other : Json N}
    (h : Respelled (.array items) other) :
    ∃ others, other = .array others ∧ List.Forall₂ Respelled items others := by
  cases h with
  | refl => exact ⟨items, rfl, List.forall₂_same.mpr fun j _ => .refl j⟩
  | array hitems => exact ⟨_, rfl, hitems⟩

end Respelled

/-- The value decodes to the given one, however its signs are spelled. -/
def Decodes (decode : Json N → Option A) (j : Json N) (a : A) : Prop :=
  ∀ other, j.Respelled other → decode other = some a

/-- A text that is no sign has one spelling. -/
theorem decodes_string {decode : Json N → Option A} {s : String} {a : A} (hle : s ≠ "<=")
    (hge : s ≠ ">=") (h : decode (.string s) = some a) : Decodes decode (.string s) a := by
  intro other hother
  rcases hother.string_cases with rfl | ⟨hs, _⟩ | ⟨hs, _⟩
  · exact h
  · exact absurd hs hle
  · exact absurd hs hge

theorem decodes_list {decode : Json N → Option A} {encode : A → Json N} {xs : List A}
    (h : ∀ x ∈ xs, Decodes decode (encode x) x) :
    Decodes (list? decode) (.ofList encode xs) xs := by
  intro other hother
  obtain ⟨others, rfl, hitems⟩ := hother.exists_items
  rw [List.forall₂_map_left_iff] at hitems
  change others.mapM decode = some xs
  clear hother
  induction hitems with
  | nil => rfl
  | @cons x other xs others hx _ ih =>
    have hrest := ih fun y hy => h y (List.mem_cons_of_mem x hy)
    simp [h x List.mem_cons_self other hx, hrest]

/-- A number that is written as one is read back. -/
theorem decodes_number {K : Type} [Scalar K] {x : K} (h : Scalar.isFinite x = true) :
    Decodes (scalar? some) (.ofNumber x) x := by
  intro other hother
  rw [ofNumber, if_pos h] at hother
  rw [hother.eq_number]
  rfl

/-- The names of the fields of an object. -/
def fieldNames : Json N → List String
  | object fields => fields.map Prod.fst
  | _ => []

@[simp] theorem valuesOf_nil (name : String) : valuesOf name ([] : List (String × Json N)) = [] :=
  rfl

@[simp] theorem valuesOf_cons (name : String) (f : String × Json N)
    (fields : List (String × Json N)) :
    valuesOf name (f :: fields) =
      if f.1 = name then f.2 :: valuesOf name fields else valuesOf name fields := by
  simp only [valuesOf, List.filter_cons, beq_iff_eq]
  split <;> rfl

@[simp] theorem valuesOf_append (name : String) (fields others : List (String × Json N)) :
    valuesOf name (fields ++ others) = valuesOf name fields ++ valuesOf name others := by
  simp [valuesOf]

/-- The values of a field are the respelled ones where all fields are respelled. -/
theorem forall₂_valuesOf {fields others : List (String × Json N)}
    (hnames : fields.map Prod.fst = others.map Prod.fst)
    (hvalues : List.Forall₂ Respelled (fields.map Prod.snd) (others.map Prod.snd))
    (name : String) :
    List.Forall₂ Respelled (valuesOf name fields) (valuesOf name others) := by
  induction fields generalizing others with
  | nil =>
    rw [List.map_eq_nil_iff.mp hnames.symm]
    exact .nil
  | cons f fields ih =>
    obtain ⟨g, others, rfl, hname, hnames⟩ := List.map_eq_cons_iff.mp hnames.symm
    obtain ⟨hvalue, hvalues⟩ := List.forall₂_cons.mp hvalues
    have hrest := ih hnames.symm hvalues
    simp only [valuesOf_cons, hname]
    split
    · exact .cons hvalue hrest
    · exact hrest

theorem Respelled.exists_fields {fields : List (String × Json N)} {other : Json N}
    (h : Respelled (.object fields) other) :
    ∃ others, other = .object others ∧
      ∀ name, List.Forall₂ Respelled (valuesOf name fields) (valuesOf name others) := by
  cases h with
  | refl => exact ⟨fields, rfl, fun name => List.forall₂_same.mpr fun j _ => .refl j⟩
  | object hnames hvalues => exact ⟨_, rfl, forall₂_valuesOf hnames hvalues⟩

section Reading
variable {fields others : List (String × Json N)} {decode : Json N → Option A}

theorem exists_value {name : String} {value : Json N}
    (hothers : List.Forall₂ Respelled (valuesOf name fields) (valuesOf name others))
    (hfields : valuesOf name fields = [value]) :
    ∃ other, value.Respelled other ∧ valuesOf name others = [other] := by
  rw [hfields] at hothers
  obtain ⟨other, rest, hother, hrest, heq⟩ := List.forall₂_cons_left_iff.mp hothers
  rw [List.forall₂_nil_left_iff.mp hrest] at heq
  exact ⟨other, hother, heq⟩

theorem required_eq_some (name : String) {value : Json N} {a : A}
    (hothers : List.Forall₂ Respelled (valuesOf name fields) (valuesOf name others))
    (hfields : valuesOf name fields = [value]) (hvalue : Decodes decode value a) :
    required decode name others = some a := by
  obtain ⟨other, hother, heq⟩ := exists_value hothers hfields
  rw [required, heq]
  exact hvalue other hother

/-- A field that is left out where there is nothing to encode is read as it was encoded, as long
as null encodes nothing else. -/
theorem optional_eq_some (name : String) {encode : A → Json N} {o : Option A}
    (hothers : List.Forall₂ Respelled (valuesOf name fields) (valuesOf name others))
    (hfields : valuesOf name fields = (o.map encode).toList) (hnull : decode .null = none)
    (hvalue : ∀ a ∈ o, Decodes decode (encode a) a) :
    optional decode name others = some o := by
  cases o with
  | none =>
    rw [hfields] at hothers
    rw [optional, List.forall₂_nil_left_iff.mp hothers]
  | some a =>
    obtain ⟨other, hother, heq⟩ := exists_value hothers hfields
    have hread := hvalue a rfl other hother
    have hne : other ≠ .null := by
      rintro rfl
      rw [hnull] at hread
      cases hread
    rw [optional, heq]
    cases other with
    | null => exact absurd rfl hne
    | _ => exact congrArg (Option.map some) hread

end Reading
end LinProg.Json
