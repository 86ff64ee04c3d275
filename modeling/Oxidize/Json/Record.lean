import Oxidize.Json.Basic

/-!
# Records and choices in JSON

A record is an object that has its fields as members, or an array of its fields in order. Unknown
members are skipped, a repeated known member refuses the record, and so do surplus items.
`Json.fields?` splits a record into its fields, each present or not; `required`, `withDefault` and
`optional` say what an absent field means.

A reader carries the number of arrays and objects it may still enter. `Json.nestingLimit` is what a
whole value starts with.
-/

namespace Oxidize

namespace Json

/-- How many arrays and objects may be open at once in what is read. -/
def nestingLimit : Nat := 127

/-- The only member with the given name; nothing if there are several, an absent field if none. -/
def field? (members : List (String × Json)) (name : String) : Option (Option Json) :=
  match members.filter fun m => m.1 == name with
  | [] => some none
  | [m] => some (some m.2)
  | _ => none

/-- Items by position, as far as there are any. -/
def positions? : List String → List Json → Option (List (Option Json))
  | [], [] => some []
  | [], _ :: _ => none
  | _ :: names, [] => (positions? names []).map (none :: ·)
  | _ :: names, item :: items => (positions? names items).map (some item :: ·)

/-- The named fields of a record, in order. -/
def fields? (names : List String) : Json → Option (List (Option Json))
  | .object members => names.mapM (field? members)
  | .array items => positions? names items
  | _ => none

/-- A field that must be there. -/
def required {α : Type} (read : Json → Option α) : Option Json → Option α
  | none => none
  | some j => read j

/-- A field with a value of its own when absent. -/
def withDefault {α : Type} (default : α) (read : Json → Option α) : Option Json → Option α
  | none => some default
  | some j => read j

/-- A field that may be absent or `null`. -/
def optional {α : Type} (read : Json → Option α) : Option Json → Option (Option α)
  | none | some .null => some none
  | some j => (read j).map some

/-- An array read item by item. Entering it takes one level of nesting, which the reader of an item
no longer has. -/
def listOf {α : Type} (read : Nat → Json → Option α) : Nat → Json → Option (List α)
  | n + 1, .array items => items.mapM (read n)
  | _, _ => none

/-- A choice without a payload: its bare name, or its name over `null`. -/
def bare? : Nat → Json → Option String
  | _, .string name => some name
  | _ + 1, .object [(name, .null)] => some name
  | _, _ => none

end Json

end Oxidize
