import Oxidize.Json.Basic

/-!
# Tables of TOML

A document builds up its tables line by line, and how a table came to be decides how it may be
extended: a table is opened by a header only once, though it may be implied before by the header of
a table inside it, and a dotted key extends only tables that dotted keys made.
-/

namespace Oxidize

namespace Toml

/-- How a table came to be. -/
inductive TableOrigin where
  /-- Opened by its own header. -/
  | header
  /-- Implied by the header of a table inside it. -/
  | implied
  /-- Made by a dotted key. -/
  | dotted
deriving DecidableEq

/-- What stands under a key. -/
inductive Item where
  | value (j : Json)
  | table (origin : TableOrigin) (entries : List (String × Item))
  /-- Tables opened by repeated headers in double brackets, each of them a table. -/
  | tables (elems : List Item)

/-- The keys of a table with what stands under them. -/
abbrev Entries := List (String × Item)

/-- The entries with one of them put in its place, or at the end if its key is new. -/
def Entries.put (entries : Entries) (key : String) (item : Item) : Entries :=
  if entries.any (·.1 == key) then entries.map fun e => if e.1 == key then (key, item) else e
  else entries ++ [(key, item)]

/-- A value under a new key, at the end of a path of dotted keys. -/
def assign (key : String) (v : Json) : List String → Entries → Option Entries
  | [], entries =>
    match entries.lookup key with
    | none => some (entries ++ [(key, .value v)])
    | some _ => none
  | k :: path, entries =>
    match entries.lookup k with
    | none => do return entries.put k (.table .dotted (← assign key v path []))
    | some (.table .dotted inner) => do
      return entries.put k (.table .dotted (← assign key v path inner))
    | some (.table .implied inner) =>
      if path.isEmpty then none
      else do return entries.put k (.table .implied (← assign key v path inner))
    | some (.tables elems) =>
      match elems.getLast? with
      | some (.table origin inner) =>
        if path.isEmpty then none
        else do
          let last := Item.table origin (← assign key v path inner)
          return entries.put k (.tables (elems.dropLast ++ [last]))
      | _ => none
    | some _ => none

/-- A change of the table at the end of a path of headers. -/
def modifyAt (f : Entries → Option Entries) : List String → Entries → Option Entries
  | [], entries => f entries
  | k :: path, entries =>
    match entries.lookup k with
    | none => do return entries.put k (.table .implied (← modifyAt f path []))
    | some (.table origin inner) => do
      return entries.put k (.table origin (← modifyAt f path inner))
    | some (.tables elems) =>
      match elems.getLast? with
      | some (.table origin inner) => do
        let last := Item.table origin (← modifyAt f path inner)
        return entries.put k (.tables (elems.dropLast ++ [last]))
      | _ => none
    | some (.value _) => none

/-- A table opened by its header. -/
def openTable (key : String) (entries : Entries) : Option Entries :=
  match entries.lookup key with
  | none => some (entries.put key (.table .header []))
  | some (.table .implied inner) => some (entries.put key (.table .header inner))
  | some _ => none

/-- One more table opened by a header in double brackets. -/
def pushTable (key : String) (entries : Entries) : Option Entries :=
  match entries.lookup key with
  | none => some (entries.put key (.tables [.table .header []]))
  | some (.tables elems) => some (entries.put key (.tables (elems ++ [.table .header []])))
  | some _ => none

mutual

/-- The value of an item. -/
def Item.toJson : Item → Json
  | .value j => j
  | .table _ entries => .object (Item.toMembers entries)
  | .tables elems => .array (Item.toJsonList elems)

/-- The members of the object of a table. -/
def Item.toMembers : List (String × Item) → List (String × Json)
  | [] => []
  | (key, item) :: entries => (key, item.toJson) :: Item.toMembers entries

/-- The values of items. -/
def Item.toJsonList : List Item → List Json
  | [] => []
  | item :: items => item.toJson :: Item.toJsonList items

end

end Toml

end Oxidize
