import Oxidize.Program
import Oxidize.Text.Case

/-!
# Names in the emitted source

Values are named in snake case and types in Pascal case. A name that is a keyword becomes a raw
identifier, or takes an underscore where it cannot be one. The receiver of a method is `self`.
-/

namespace Oxidize

namespace Name

/-- Keywords that can be raw identifiers. Reference: `KEYWORDS`. -/
def keywords : List String :=
  [ "as", "async", "await", "box", "break", "const", "continue", "dyn", "else", "enum", "extern",
    "false", "fn", "for", "gen", "if", "impl", "in", "let", "loop", "match", "mod", "move", "mut",
    "priv", "pub", "ref", "return", "static", "struct", "trait", "true", "try", "type", "typeof",
    "unsafe", "unsized", "use", "virtual", "where", "while", "yield", "abstract", "become", "do",
    "final", "macro", "override" ]

/-- Keywords that cannot be raw identifiers. Reference: `RESERVED`. -/
def reserved : List String :=
  ["self", "Self", "super", "crate"]

/-- Whether an upper-case character starts a word, from the characters around it: after a lower-case
character or a digit it does, and in a run of upper-case ones if a lower-case one follows. Reference:
`boundary` in `snake_case`. -/
def startsWord (prev next : Option Char) : Bool :=
  match prev with
  | some p =>
    Text.isLower p || p.isDigit || (Text.isUpper p && next.any Text.isLower)
  | none => false

/-- The rest of a name in snake case, after the given character. Reference: the loop of
`snake_case`. -/
def snakeFrom : Option Char → List Char → List Char
  | _, [] => []
  | prev, c :: rest =>
    (if Text.isUpper c then
      (if startsWord prev rest.head? then ['_'] else []) ++ Text.toLower c
    else [c]) ++ snakeFrom (some c) rest

/-- A name in snake case: `parseHTTPRequest` is `parse_http_request`. Reference: `snake_case`. -/
def snakeCase (name : String) : String :=
  String.ofList (snakeFrom none name.toList)

/-- The rest of a name in Pascal case, at the start of a word or inside one. -/
def pascalFrom : Bool → List Char → List Char
  | _, [] => []
  | atStart, c :: rest =>
    if c = '_' then pascalFrom true rest
    else (if atStart then Text.toUpper c else [c]) ++ pascalFrom false rest

/-- A name in Pascal case: `line_item` is `LineItem`. Reference: `pascal_case`. -/
def pascalCase (name : String) : String :=
  String.ofList (pascalFrom true name.toList)

/-- A name that does not collide with a keyword. Reference: `escape`. -/
def escape (name : String) : String :=
  if reserved.contains name then name ++ "_"
  else if keywords.contains name then "r#" ++ name
  else name

/-- The name of a variable, parameter, function, method or field. Reference: `value_name`. -/
def value (name : String) : String :=
  if name = receiverName then "self" else escape (snakeCase name)

/-- The name of an aggregate, enum, alias or variant. Reference: `type_name`. -/
def type (name : String) : String :=
  escape (pascalCase name)

end Name

end Oxidize
