import Oxidize.Files.Path

/-!
# Files

A `FileSystem` is what a command needs of the files around it, in any monad. A `FileTree` holds
files in memory; `FileTree.fileSystem` lets a command run on it.
-/

namespace Oxidize

/-- Access to files. -/
structure FileSystem (m : Type → Type) where
  isFile : Path → m Bool
  /-- The text of a file, nothing if it cannot be read. -/
  read : Path → m (Option String)
  /-- Replaces or creates a file and says whether that went well. -/
  write : Path → String → m Bool

/-- Files below one directory, by the names on the way to them. A directory is there if it is on the
way to a file. -/
structure FileTree where
  files : List (List String × String)

namespace FileTree

/-- There is a directory with the given names on the way to it. -/
def isDir (t : FileTree) (names : List String) : Bool :=
  names.isEmpty || t.files.any fun f => names.isPrefixOf f.1 && names.length < f.1.length

/-- The names on the way to what a path leads to, from a directory on. Only a directory can be gone
through. -/
def walk (t : FileTree) : List String → List String → Option (List String)
  | names, [] => some names
  | names, part :: parts =>
    if !t.isDir names then none
    else if part = "" ∨ part = "." then t.walk names parts
    else if part = ".." then
      if names.isEmpty then none else t.walk names.dropLast parts
    else t.walk (names ++ [part]) parts

/-- The names on the way to what a path leads to. Nothing outside the tree is there. -/
def locate? (t : FileTree) (p : Path) : Option (List String) :=
  if p.isAbsolute then none else t.walk [] p.parts

/-- The text of the file at a path. -/
def read? (t : FileTree) (p : Path) : Option String := do
  t.files.lookup (← t.locate? p)

/-- The tree with a file replaced or created; its directory has to be there. -/
def write? (t : FileTree) (p : Path) (text : String) : Option FileTree := do
  let names ← t.locate? p
  if t.isDir names then none
  else some ⟨t.files.filter (·.1 != names) ++ [(names, text)]⟩

/-- The files of a tree, which a command may change. -/
def fileSystem : FileSystem (StateM FileTree) where
  isFile p := do return ((← get).read? p).isSome
  read p := do return (← get).read? p
  write p text := do
    match (← get).write? p text with
    | some t => set t; return true
    | none => return false

end FileTree

end Oxidize
