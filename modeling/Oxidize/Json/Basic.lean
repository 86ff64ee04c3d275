import Oxidize.Number.Binary64

/-!
# JSON values

A JSON value keeps the members of an object in order and with repetitions, since a reader that
refuses repeated members has to see them. An integer of at most 64 bits stays an integer and every
other number is the nearest double-precision number.

`Json.unreadable` stands for text that is well formed and yet denotes no value: a string with an
unpaired surrogate escape, an object with such a member name, a number past the largest finite one.
A reader may skip it and never reads anything from it.
-/

namespace Oxidize

/-- A JSON value. -/
inductive Json where
  | null
  | bool (b : Bool)
  | integer (i : Int)
  | float (x : Binary64)
  | string (s : String)
  | array (items : List Json)
  | object (members : List (String × Json))
  | unreadable

namespace Json

/-- The boolean of a boolean value. -/
def bool? : Json → Option Bool
  | .bool b => some b
  | _ => none

/-- The text of a string value. -/
def string? : Json → Option String
  | .string s => some s
  | _ => none

/-- The natural number of an integer value. -/
def nat? : Json → Option Nat
  | .integer (.ofNat n) => some n
  | _ => none

/-- The number of a numeric value. -/
def number? : Json → Option Binary64
  | .integer i => Binary64.ofInt? i
  | .float x => some x
  | _ => none

/-- The name and the value of an object with exactly one member. -/
def single? : Json → Option (String × Json)
  | .object [member] => some member
  | _ => none

/-- The natural number as a value. -/
def nat (n : Nat) : Json :=
  .integer (.ofNat n)

/-- The number as a value. What is not finite has no JSON form and is `null`. -/
def ofNumber (x : Binary64) : Json :=
  if x.isFinite then .float x else .null

/-- The value or `null`. -/
def ofOption {α : Type} (f : α → Json) : Option α → Json
  | none => .null
  | some a => f a

end Json

end Oxidize
