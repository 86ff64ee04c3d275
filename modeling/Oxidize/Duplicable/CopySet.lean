import Oxidize.Registry

/-!
# Duplicable types

A `CopySet` holds the names of the aggregates and enums that are trivially duplicable.
`CopySet.admits` says whether a field of some type keeps its owner duplicable, and
`CopySet.isDuplicable` whether a variable of some type can be read again and again; the latter
counts optionals and functions as owning.

Both expand aliases anew at every layer, so on an alias that contains itself there may be no
answer: `admitsWithin` and `isDuplicableWithin` answer `none` when the given number of layers does
not suffice. `Registry.expansionBound` layers suffice when no alias contains itself; otherwise a
check goes on for as many layers as calls can be nested.
-/

namespace Oxidize

/-- Names of duplicable declarations, and the declarations that tell what other names mean. -/
structure CopySet where
  names : List String
  registry : Option Registry

namespace CopySet

/-- No names and no declarations. -/
def empty : CopySet :=
  ⟨[], none⟩

/-- No names, with declarations. Reference: `with_registry`. -/
def ofRegistry (r : Registry) : CopySet :=
  ⟨[], some r⟩

/-- A duplicable name. Reference: `CopySet.contains`. -/
def contains (s : CopySet) (name : String) : Bool :=
  s.names.contains name

/-- The set with a name added. Reference: `CopySet.insert`. -/
def insert (s : CopySet) (name : String) : CopySet :=
  if s.contains name then s else { s with names := name :: s.names }

/-- A type with its aliases expanded, as far as the declarations are known. Reference:
`normalized`. -/
def normalized (s : CopySet) (t : Ty) : Ty :=
  match s.registry with
  | some r => r.normalize t
  | none => t

/-- How many layers a check may have to descend when no alias contains itself. -/
def expansionBound (s : CopySet) (t : Ty) : Nat :=
  match s.registry with
  | some r => r.expansionBound t
  | none => t.depth + 1

/-- How many layers a check descends at most: those it may have to, and then as many as calls can be
nested. -/
def callBound (s : CopySet) (t : Ty) : Nat :=
  s.expansionBound t + Registry.callLimit

/-- Whether all items pass a check that may have no answer. Items after the first that fails are
not looked at. -/
def allWithin (check : Ty → Option Bool) : List Ty → Option Bool
  | [] => some true
  | t :: ts =>
    match check t with
    | some true => allWithin check ts
    | answer => answer

/-- Whether a field of the type keeps its owner duplicable, if that many layers tell. Reference:
`CopySet.admits`, with a bound on its depth. -/
def admitsWithin (s : CopySet) : Nat → Ty → Option Bool
  | 0, _ => none
  | n + 1, t =>
    match s.normalized t with
    | .prim p => some (p != .ownedText)
    | .seq _ | .fn _ _ => some false
    | .aggregate name | .enum name => some (s.contains name)
    | .tuple elems => allWithin (s.admitsWithin n) elems
    | .optional inner => s.admitsWithin n inner
    | .ref _ mutable => some !mutable

/-- Whether a field of the type keeps its owner duplicable. Reference: `CopySet.admits`. -/
def admits (s : CopySet) (t : Ty) : Bool :=
  (s.admitsWithin (s.callBound t) t).getD false

/-- Whether a variable of the type can be read repeatedly, if that many layers tell. Reference:
`CopySet.is_duplicable`, with a bound on its depth. -/
def isDuplicableWithin (s : CopySet) : Nat → Ty → Option Bool
  | 0, _ => none
  | n + 1, t =>
    match s.normalized t with
    | .optional _ | .fn _ _ => some false
    | .tuple elems => allWithin (s.isDuplicableWithin n) elems
    | t => s.admitsWithin (n + 1) t

/-- Whether a variable of the type can be read repeatedly without an explicit duplicate. Reference:
`CopySet.is_duplicable`. -/
def isDuplicable (s : CopySet) (t : Ty) : Bool :=
  (s.isDuplicableWithin (s.callBound t) t).getD false

end CopySet

/-- The derive tag of duplicable declarations. -/
def copyTag : String := "Copy"

/-- The aggregate carries the tag of duplicable declarations. -/
def StructDecl.hasCopy (s : StructDecl) : Bool :=
  s.derives.contains copyTag

/-- The enum carries the tag of duplicable declarations. -/
def EnumDecl.hasCopy (e : EnumDecl) : Bool :=
  e.derives.contains copyTag

/-- The declarations of a program that carry the tag. Reference: `CopySet.from_program`. -/
def CopySet.ofProgram (p : Program) (r : Registry) : CopySet :=
  let structs := (p.structs.filter (·.hasCopy)).map (·.name)
  let enums := (p.enums.filter (·.hasCopy)).map (·.name)
  (structs ++ enums).foldl CopySet.insert (.ofRegistry r)

end Oxidize
