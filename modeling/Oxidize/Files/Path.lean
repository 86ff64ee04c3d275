/-!
# Paths

A path is kept as it is written: its parts between slashes, among them empty ones and dots. The
parent of a path is found in the text alone, where an empty part or a dot is no part of its own
unless the dot leads a relative path.
-/

namespace Oxidize

/-- A path as written. -/
structure Path where
  isAbsolute : Bool
  /-- What stands between the slashes, without the one that makes the path absolute. -/
  parts : List String
deriving DecidableEq, Repr

namespace Path

/-- The path of a text. -/
def ofString (text : String) : Path :=
  match text.toList with
  | '/' :: rest => ⟨true, (String.ofList rest).splitOn "/"⟩
  | _ => ⟨false, text.splitOn "/"⟩

/-- The text of a path. -/
def text (p : Path) : String :=
  (if p.isAbsolute then "/" else "") ++ String.intercalate "/" p.parts

/-- Parts in reverse without those at the end that do not count. -/
def trimEnd (isAbsolute : Bool) : List String → List String
  | [] => []
  | [part] => if part = "" ∨ (part = "." ∧ isAbsolute) then [] else [part]
  | part :: parts =>
    if part = "" ∨ part = "." then trimEnd isAbsolute parts else part :: parts

/-- The path without its last part. -/
def parent? (p : Path) : Option Path :=
  match trimEnd p.isAbsolute p.parts.reverse with
  | [] => none
  | _ :: rest => some ⟨p.isAbsolute, (trimEnd p.isAbsolute rest).reverse⟩

/-- The path and its parents, at most so many of them. -/
def ancestorsWithin : Nat → Path → List Path
  | 0, p => [p]
  | n + 1, p => p :: (p.parent?.map (ancestorsWithin n)).getD []

/-- The path and all its parents, nearest first. -/
def ancestors (p : Path) : List Path :=
  ancestorsWithin p.parts.length p

/-- The path of a name inside a directory. -/
def join (p : Path) (name : String) : Path :=
  { p with parts := (if p.parts.getLast? = some "" then p.parts.dropLast else p.parts) ++ [name] }

/-- A part that leads somewhere else. -/
def counts (part : String) : Bool :=
  part != "" && part != "."

/-- The parts that follow the given ones, from the first that counts on. -/
def partsAfter? : List String → List String → Option (List String)
  | [], parts => some (parts.dropWhile (!counts ·))
  | name :: names, parts =>
    match parts.dropWhile (!counts ·) with
    | [] => none
    | part :: rest => if part = name then partsAfter? names rest else none

/-- A path below a directory, as it is written from there. -/
def relative? (dir p : Path) : Option Path :=
  if dir.isAbsolute = p.isAbsolute then
    (partsAfter? (dir.parts.filter counts) p.parts).map (⟨false, ·⟩)
  else none

end Path

end Oxidize
