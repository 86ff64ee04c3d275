/-!
# Types

The types of the source language: primitives, sequences, tuples, optionals, references, function
types, and names of declared aggregates and enums. `Ty.display` is the spelling that diagnostics use.
-/

namespace Oxidize

/-- A primitive type. Text either owns its buffer or views another one. -/
inductive Prim where
  | i8 | i16 | i32 | i64
  | u8 | u16 | u32 | u64
  | usize
  | f32 | f64
  | bool
  | void
  | ownedText
  | viewText
deriving DecidableEq, Repr

namespace Prim

/-- An integer or a floating-point number. -/
def isNumeric : Prim → Bool
  | .bool | .void | .ownedText | .viewText => false
  | _ => true

/-- A floating-point number. -/
def isFloat : Prim → Bool
  | .f32 | .f64 => true
  | _ => false

/-- Text of either kind. -/
def isText : Prim → Bool
  | .ownedText | .viewText => true
  | _ => false

/-- The spelling of a primitive in diagnostics. -/
def display : Prim → String
  | .i8 => "i8"
  | .i16 => "i16"
  | .i32 => "i32"
  | .i64 => "i64"
  | .u8 => "u8"
  | .u16 => "u16"
  | .u32 => "u32"
  | .u64 => "u64"
  | .usize => "usize"
  | .f32 => "f32"
  | .f64 => "number"
  | .bool => "boolean"
  | .void => "void"
  | .ownedText => "string"
  | .viewText => "string (view)"

end Prim

/-- A type. `aggregate` and `enum` refer to declarations by name; which of the two a name really
is, and whether it is an alias, only the declarations tell. -/
inductive Ty where
  | prim (p : Prim)
  | seq (elem : Ty)
  | aggregate (name : String)
  | enum (name : String)
  | tuple (elems : List Ty)
  | optional (inner : Ty)
  | ref (inner : Ty) (mutable : Bool)
  | fn (params : List Ty) (ret : Ty)

namespace Ty

mutual

/-- Whether two types are the same. -/
def beq : Ty → Ty → Bool
  | .prim p, .prim q => p == q
  | .seq a, .seq b | .optional a, .optional b => beq a b
  | .aggregate n, .aggregate m | .enum n, .enum m => n == m
  | .tuple as, .tuple bs => beqList as bs
  | .ref a m, .ref b n => beq a b && m == n
  | .fn as a, .fn bs b => beqList as bs && beq a b
  | _, _ => false

/-- Whether two lists of types are the same. -/
def beqList : List Ty → List Ty → Bool
  | [], [] => true
  | a :: as, b :: bs => beq a b && beqList as bs
  | _, _ => false

end

mutual

/-- The comparison of types decides whether they are equal. -/
theorem beq_iff_eq : (a b : Ty) → (beq a b = true ↔ a = b)
  | .prim _, b | .aggregate _, b | .enum _, b => by cases b <;> simp [beq]
  | .seq a, b | .optional a, b => by cases b <;> simp [beq, beq_iff_eq a]
  | .tuple as, b => by cases b <;> simp [beq, beqList_iff_eq as]
  | .ref a _, b => by cases b <;> simp [beq, beq_iff_eq a]
  | .fn as a, b => by cases b <;> simp [beq, beqList_iff_eq as, beq_iff_eq a]

/-- The comparison of lists of types decides whether they are equal. -/
theorem beqList_iff_eq : (as bs : List Ty) → (beqList as bs = true ↔ as = bs)
  | [], bs => by cases bs <;> simp [beqList]
  | a :: as, bs => by cases bs <;> simp [beqList, beq_iff_eq a, beqList_iff_eq as]

end

instance : DecidableEq Ty := fun a b => decidable_of_iff _ (beq_iff_eq a b)

/-- The type of what has no value, and of what could not be typed. -/
@[match_pattern] abbrev void : Ty := .prim .void

/-- The type of truth values. -/
@[match_pattern] abbrev bool : Ty := .prim .bool

/-- The type of number literals. -/
@[match_pattern] abbrev f64 : Ty := .prim .f64

/-- The type of lengths. -/
@[match_pattern] abbrev usize : Ty := .prim .usize

/-- Text that owns its buffer. -/
@[match_pattern] abbrev ownedText : Ty := .prim .ownedText

/-- Text that views another buffer. -/
@[match_pattern] abbrev viewText : Ty := .prim .viewText

/-- The type `void`. -/
def isVoid : Ty → Bool
  | .void => true
  | _ => false

/-- Text of either kind. -/
def isText : Ty → Bool
  | .prim p => p.isText
  | _ => false

/-- Text that owns its buffer. -/
def isOwnedText : Ty → Bool
  | .ownedText => true
  | _ => false

/-- Text that views another buffer. -/
def isViewText : Ty → Bool
  | .viewText => true
  | _ => false

/-- A sequence. -/
def isSeq : Ty → Bool
  | .seq _ => true
  | _ => false

/-- A floating-point primitive. -/
def isFloat : Ty → Bool
  | .prim p => p.isFloat
  | _ => false

/-- The type under any number of reference layers. -/
def stripRefs : Ty → Ty
  | .ref inner _ => inner.stripRefs
  | t => t

/-- The element type of a sequence, through references. -/
def element? (t : Ty) : Option Ty :=
  match t.stripRefs with
  | .seq elem => some elem
  | _ => none

/-- The type of the variable of a loop over a value of the type: of an element of a sequence, or of
a piece of text. -/
def loopElement (t : Ty) : Ty :=
  match t.stripRefs with
  | .seq elem => elem
  | t => if t.isText then .ownedText else .void

/-- The name of the aggregate or enum a type refers to, through references. -/
def nominalName? (t : Ty) : Option String :=
  match t.stripRefs with
  | .aggregate n | .enum n => some n
  | _ => none

mutual

/-- The spelling of a type in diagnostics. -/
def display : Ty → String
  | .prim p => p.display
  | .seq elem => elem.display ++ "[]"
  | .aggregate n | .enum n => n
  | .tuple elems => "[" ++ String.intercalate ", " (displayList elems) ++ "]"
  | .optional inner => inner.display ++ " | null"
  | .ref inner mutable => (if mutable then "&mut " else "&") ++ inner.display
  | .fn params ret =>
    "(" ++ String.intercalate ", " (displayList params) ++ ") => " ++ ret.display

/-- The spellings of a list of types. -/
def displayList : List Ty → List String
  | [] => []
  | t :: ts => t.display :: displayList ts

end

mutual

/-- How many constructors are nested above the deepest leaf. -/
def depth : Ty → Nat
  | .prim _ | .aggregate _ | .enum _ => 0
  | .seq inner | .optional inner | .ref inner _ => inner.depth + 1
  | .tuple elems => depthList elems + 1
  | .fn params ret => max (depthList params) ret.depth + 1

/-- The greatest depth in a list of types. -/
def depthList : List Ty → Nat
  | [] => 0
  | t :: ts => max t.depth (depthList ts)

end

end Ty

end Oxidize
