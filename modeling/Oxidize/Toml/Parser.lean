import Oxidize.Toml.Scalar
import Oxidize.Toml.Table

/-!
# Reading TOML text

`Toml.parse?` reads a document into the object of its top-level table. A document is read into lines
first; the lines then build the tables in order.
-/

namespace Oxidize

namespace Toml

/-- How many arrays and inline tables may be open at once, and how many parts a key may have. -/
def nestingLimit : Nat := 79

/-- A key: the tables on the way and the last part. -/
structure Key where
  path : List String
  last : String

/-- A character of a key without quotes. -/
def isBareKeyChar (c : Char) : Bool :=
  c.isAlphanum || c == '_' || c == '-'

/-- One part of a key, and what follows it. -/
def keyPart? (cs : List Char) : Option (String × List Char) :=
  match cs with
  | '"' :: rest => basicBody? (rest.length + 1) [] rest
  | '\'' :: rest => literalBody? rest
  | cs =>
    match cs.span isBareKeyChar with
    | ([], _) => none
    | (text, rest) => some (String.ofList text, rest)

/-- The parts of a key with blanks around them, and what follows. The number bounds the parts. -/
def keyParts? : Nat → List Char → Option (List String × List Char)
  | 0, _ => none
  | n + 1, cs => do
    let (part, rest) ← keyPart? (skipBlanks cs)
    match skipBlanks rest with
    | '.' :: rest =>
      let (parts, rest) ← keyParts? n rest
      return (part :: parts, rest)
    | rest => return ([part], rest)

/-- A key and what follows it. -/
def key? (cs : List Char) : Option (Key × List Char) := do
  let (parts, rest) ← keyParts? nestingLimit cs
  return (⟨parts.dropLast, ← parts.getLast?⟩, rest)

/-- The text without leading blanks, line breaks and comments that a line break ends. -/
def skipLines : Bool → List Char → List Char
  | true, '\n' :: rest => skipLines false rest
  | true, '\r' :: '\n' :: rest => skipLines false rest
  | true, c :: rest => if isPlain c then skipLines true rest else c :: rest
  | false, '\n' :: rest => skipLines false rest
  | false, '\r' :: '\n' :: rest => skipLines false rest
  | false, '#' :: rest => skipLines true rest
  | false, c :: rest => if isBlank c then skipLines false rest else c :: rest
  | _, [] => []

/-- The object of the pairs of an inline table. -/
def inlineTable? (pairs : List (Key × Json)) : Option Json := do
  let entries ← pairs.foldlM (fun entries (key, v) => assign key.last v key.path entries) []
  return .object (Item.toMembers entries)

mutual

/-- A value and what follows it. The first number bounds the calls, the second the nesting. -/
def value? : Nat → Nat → List Char → Option (Json × List Char)
  | 0, _, _ => none
  | n + 1, depth, cs =>
    match cs, depth with
    | '[' :: rest, depth + 1 => do
      let (items, rest) ← items? n depth (skipLines false rest)
      return (.array items, rest)
    | '\x7b' :: rest, depth + 1 =>
      match skipBlanks rest with
      | '\x7d' :: rest => some (.object [], rest)
      | rest => do
        let (pairs, rest) ← pairs? n depth rest
        return (← inlineTable? pairs, rest)
    | '"' :: _, _ | '\'' :: _, _ => do
      let (text, rest) ← string? cs
      return (.string text, rest)
    | _, _ => word? cs

/-- The items of an array up to its closing bracket. A comma may follow the last one. -/
def items? : Nat → Nat → List Char → Option (List Json × List Char)
  | 0, _, _ => none
  | _ + 1, _, ']' :: rest => some ([], rest)
  | n + 1, depth, cs => do
    let (item, rest) ← value? n depth cs
    match skipLines false rest with
    | ',' :: rest =>
      let (items, rest) ← items? n depth (skipLines false rest)
      return (item :: items, rest)
    | ']' :: rest => return ([item], rest)
    | _ => none

/-- The pairs of a non-empty inline table up to its closing brace. -/
def pairs? : Nat → Nat → List Char → Option (List (Key × Json) × List Char)
  | 0, _, _ => none
  | n + 1, depth, cs => do
    let (key, rest) ← key? cs
    let '=' :: rest := rest | none
    let (v, rest) ← value? n depth (skipBlanks rest)
    match skipBlanks rest with
    | ',' :: rest =>
      let (pairs, rest) ← pairs? n depth rest
      return ((key, v) :: pairs, rest)
    | '\x7d' :: rest => return ([(key, v)], rest)
    | _ => none

end

/-- A line that says something. -/
inductive Line where
  | header (key : Key)
  | arrayHeader (key : Key)
  | pair (key : Key) (v : Json)

/-- What follows the end of a line, which may hold a comment. -/
def lineEnd? (cs : List Char) : Option (List Char) :=
  let rest := match skipBlanks cs with
    | '#' :: rest => rest.dropWhile isPlain
    | rest => rest
  if rest.isEmpty then some [] else newline? rest

/-- The header or the pair at the start of the text, and what follows it on the line. -/
def line? : List Char → Option (Line × List Char)
  | '[' :: '[' :: cs => do
    let (key, rest) ← key? cs
    let ']' :: ']' :: rest := rest | none
    return (.arrayHeader key, rest)
  | '[' :: cs => do
    let (key, rest) ← key? cs
    let ']' :: rest := rest | none
    return (.header key, rest)
  | cs => do
    let (key, rest) ← key? cs
    let '=' :: rest := rest | none
    let (v, rest) ← value? (2 * rest.length + 2) nestingLimit (skipBlanks rest)
    return (.pair key v, rest)

/-- The lines of a text. The number bounds them. -/
def lines? : Nat → List Char → Option (List Line)
  | 0, _ => none
  | n + 1, cs =>
    match skipBlanks cs with
    | [] => some []
    | c :: rest =>
      if c == '#' || c == '\n' || c == '\r' then do lines? n (← lineEnd? (c :: rest))
      else do
        let (line, rest) ← line? (c :: rest)
        return line :: (← lines? n (← lineEnd? rest))

/-- The tables built so far and the path of the one that pairs go to. -/
structure Building where
  root : Entries
  current : List String

/-- The tables after one more line. -/
def Building.step (b : Building) : Line → Option Building
  | .header key => do
    return ⟨← modifyAt (openTable key.last) key.path b.root, key.path ++ [key.last]⟩
  | .arrayHeader key => do
    return ⟨← modifyAt (pushTable key.last) key.path b.root, key.path ++ [key.last]⟩
  | .pair key v => do
    return { b with root := ← modifyAt (assign key.last v key.path) b.current b.root }

/-- The text without a byte order mark. -/
def withoutMark : List Char → List Char
  | c :: cs => if c.toNat = 0xfeff then cs else c :: cs
  | [] => []

/-- The object a document denotes. -/
def parse? (text : String) : Option Json := do
  let cs := withoutMark text.toList
  let lines ← lines? (cs.length + 1) cs
  let b ← lines.foldlM Building.step ⟨[], []⟩
  return .object (Item.toMembers b.root)

end Toml

end Oxidize
