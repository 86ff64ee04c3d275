import Oxidize.Builtin.Template

/-!
# Builtin methods and constants

Every builtin method is a `Rule`: its template, whether it changes its receiver, whether it stands
as a statement, and the type of its result. Rules come in tables: one for sequences, one for text,
and one for each `Namespace`. Some namespaces also have constants.
-/

namespace Oxidize

/-- A namespace that calls may name as their object. -/
inductive Namespace where
  | console
  | array
  | string
  | math
  | process
deriving DecidableEq, Repr

namespace Namespace

/-- The namespaces. -/
def all : List Namespace :=
  [.console, .array, .string, .math, .process]

/-- The identifier of a namespace. -/
def ident : Namespace → String
  | .console => "console"
  | .array => "Array"
  | .string => "String"
  | .math => "Math"
  | .process => "process"

/-- The namespace with the given identifier. Reference: `Namespace.from_ident`. -/
def ofIdent? (name : String) : Option Namespace :=
  all.find? (·.ident == name)

end Namespace

/-- How the type of a builtin's result is found. -/
inductive ResultKind where
  | void
  | bool
  | number
  | size
  | ownedText
  | receiver
  | element
  | optionalElement
  | textSequence
  | firstArg
  | sequenceOfFirstArg
deriving DecidableEq, Repr

namespace ResultKind

/-- The result kinds. -/
def all : List ResultKind :=
  [.void, .bool, .number, .size, .ownedText, .receiver, .element, .optionalElement,
    .textSequence, .firstArg, .sequenceOfFirstArg]

/-- The name of a result kind. -/
def tag : ResultKind → String
  | .void => "void"
  | .bool => "bool"
  | .number => "number"
  | .size => "size"
  | .ownedText => "owned_text"
  | .receiver => "receiver"
  | .element => "element"
  | .optionalElement => "optional_element"
  | .textSequence => "text_sequence"
  | .firstArg => "first_arg"
  | .sequenceOfFirstArg => "sequence_of_first_arg"

/-- The type of a result, from the types of the receiver and of the arguments. What cannot be told
is `void`; text that a receiver gives back is owned. Reference: `ResultKind.resolve`. -/
def resolve (kind : ResultKind) (receiver : Option Ty) (args : List Ty) : Ty :=
  let recv := receiver.map Ty.stripRefs
  let elem := (recv.bind Ty.element?).getD .void
  let first := args.head?.getD .void
  match kind with
  | .void => .void
  | .bool => .bool
  | .number => .f64
  | .size => .usize
  | .ownedText => .ownedText
  | .receiver =>
    match recv with
    | some t => if t.isText then .ownedText else t
    | none => .void
  | .element => elem
  | .optionalElement => .optional elem
  | .textSequence => .seq .ownedText
  | .firstArg => first
  | .sequenceOfFirstArg => .seq first

end ResultKind

/-- A builtin method. -/
structure Rule where
  name : String
  template : String
  mutatesReceiver : Bool
  isStatement : Bool
  result : ResultKind
  elementArgs : Bool
deriving DecidableEq, Repr

namespace Rule

/-- A method that stands inside an expression. -/
def ofExpr (name template : String) (result : ResultKind) : Rule :=
  ⟨name, template, false, false, result, false⟩

/-- A method that stands as a statement and has no value. -/
def ofStmt (name template : String) : Rule :=
  ⟨name, template, false, true, .void, false⟩

/-- The rule, changing its receiver. -/
def mutating (r : Rule) : Rule :=
  { r with mutatesReceiver := true }

/-- The rule, with arguments of the element type of its receiver. -/
def withElementArgs (r : Rule) : Rule :=
  { r with elementArgs := true }

/-- The text of a call. Reference: `BuiltinRule.render`. -/
def render (r : Rule) (texts : CallTexts) : String :=
  Template.expand r.template texts

end Rule

/-- A member of a namespace that is read as a value. -/
structure Constant where
  name : String
  template : String
  result : ResultKind
deriving DecidableEq, Repr

/-- A table of builtin methods. -/
inductive Table where
  | sequence
  | text
  | ns (ns : Namespace)
deriving DecidableEq, Repr

namespace Table

/-- Methods of sequences. -/
def sequenceRules : List Rule :=
  [ (Rule.ofStmt "push" "{recv}.push({0})").mutating.withElementArgs,
    (Rule.ofExpr "pop" "{recv}.pop()" .optionalElement).mutating,
    (Rule.ofExpr "shift" "{recv}.remove(0)" .element).mutating,
    (Rule.ofStmt "unshift" "{recv}.insert(0, {0})").mutating.withElementArgs,
    (Rule.ofStmt "reverse" "{recv}.reverse()").mutating,
    (Rule.ofStmt "sort"
      "{recv}.sort_by(|a, b| a.partial_cmp(b).unwrap_or(std::cmp::Ordering::Equal))").mutating,
    (Rule.ofExpr "includes" "{recv}.contains(&{0})" .bool).withElementArgs,
    (Rule.ofExpr "indexOf"
      "{recv}.iter().position(|e| *e == {0}).map(|i| i as f64).unwrap_or(-1.0)"
      .number).withElementArgs,
    Rule.ofExpr "join"
      "{recv}.iter().map(|e| e.to_string()).collect::<Vec<String>>().join(&*{0})" .ownedText,
    Rule.ofExpr "slice" "{recv}[{range}].to_vec()" .receiver,
    Rule.ofExpr "concat" "[{recv}.as_slice(), {0}.as_slice()].concat()" .receiver ]

/-- Methods of text. -/
def textRules : List Rule :=
  [ Rule.ofExpr "includes" "{recv}.contains(&*{0})" .bool,
    Rule.ofExpr "indexOf" "{recv}.find(&*{0}).map(|i| i as f64).unwrap_or(-1.0)" .number,
    Rule.ofExpr "slice" "{recv}[{range}].to_string()" .ownedText,
    Rule.ofExpr "concat" "format!(\"\x7b\x7d\x7b\x7d\", {recv}, {0})" .ownedText,
    Rule.ofExpr "toUpperCase" "{recv}.to_uppercase()" .ownedText,
    Rule.ofExpr "toLowerCase" "{recv}.to_lowercase()" .ownedText,
    Rule.ofExpr "trim" "{recv}.trim().to_string()" .ownedText,
    Rule.ofExpr "split"
      "{recv}.split(&*{0}).map(|s| s.to_string()).collect::<Vec<String>>()" .textSequence,
    Rule.ofExpr "startsWith" "{recv}.starts_with(&*{0})" .bool,
    Rule.ofExpr "endsWith" "{recv}.ends_with(&*{0})" .bool,
    Rule.ofExpr "charAt"
      "{recv}.chars().nth(\x7b0:usize\x7d).map(|c| c.to_string()).unwrap_or_default()" .ownedText,
    Rule.ofExpr "replace" "{recv}.replacen(&*{0}, &*{1}, 1)" .ownedText,
    Rule.ofExpr "repeat" "{recv}.repeat(\x7b0:usize\x7d)" .ownedText,
    Rule.ofExpr "padStart"
      "format!(\"\x7b:>width$\x7d\", {recv}, width = \x7b0:usize\x7d)" .ownedText,
    Rule.ofExpr "toString" "{recv}.to_string()" .ownedText ]

/-- Methods of `console`. -/
def consoleRules : List Rule :=
  [ Rule.ofStmt "log" "println!({fmt})",
    Rule.ofStmt "info" "println!({fmt})",
    Rule.ofStmt "debug" "println!({fmt})",
    Rule.ofStmt "warn" "eprintln!({fmt})",
    Rule.ofStmt "error" "eprintln!({fmt})" ]

/-- Methods of `Array`. -/
def arrayRules : List Rule :=
  [ Rule.ofExpr "from" "{0}.iter().cloned().collect::<Vec<_>>()" .firstArg,
    Rule.ofExpr "of" "vec![{args}]" .sequenceOfFirstArg ]

/-- Methods of `String`. -/
def stringRules : List Rule :=
  [ Rule.ofExpr "fromCharCode"
      "char::from_u32({0} as u32).map(|c| c.to_string()).unwrap_or_default()" .ownedText ]

/-- Methods of `Math`. -/
def mathRules : List Rule :=
  [ Rule.ofExpr "floor" "({0} as f64).floor()" .number,
    Rule.ofExpr "ceil" "({0} as f64).ceil()" .number,
    Rule.ofExpr "round" "({0} as f64).round()" .number,
    Rule.ofExpr "trunc" "({0} as f64).trunc()" .number,
    Rule.ofExpr "abs" "({0} as f64).abs()" .number,
    Rule.ofExpr "sqrt" "({0} as f64).sqrt()" .number,
    Rule.ofExpr "sign" "({0} as f64).signum()" .number,
    Rule.ofExpr "pow" "({0} as f64).powf({1} as f64)" .number,
    Rule.ofExpr "min" "({0} as f64).min({1} as f64)" .number,
    Rule.ofExpr "max" "({0} as f64).max({1} as f64)" .number ]

/-- Methods of `process`. -/
def processRules : List Rule :=
  [ Rule.ofStmt "exit" "std::process::exit({0} as i32)",
    Rule.ofExpr "cwd"
      "std::env::current_dir().map(|p| p.display().to_string()).unwrap_or_default()" .ownedText ]

/-- The methods of a table, in order. -/
def rules : Table → List Rule
  | .sequence => sequenceRules
  | .text => textRules
  | .ns .console => consoleRules
  | .ns .array => arrayRules
  | .ns .string => stringRules
  | .ns .math => mathRules
  | .ns .process => processRules

/-- The method of a table with the given name. Reference: `Table.lookup`. -/
def lookup? (t : Table) (method : String) : Option Rule :=
  t.rules.find? (·.name == method)

/-- The spelling of a table in diagnostics. -/
def display : Table → String
  | .sequence => "Sequence"
  | .text => "Text"
  | .ns .console => "Namespace(Console)"
  | .ns .array => "Namespace(Array)"
  | .ns .string => "Namespace(String)"
  | .ns .math => "Namespace(Math)"
  | .ns .process => "Namespace(Process)"

end Table

namespace Namespace

/-- The constants of a namespace. -/
def constants : Namespace → List Constant
  | .math =>
    [⟨"PI", "std::f64::consts::PI", .number⟩, ⟨"E", "std::f64::consts::E", .number⟩]
  | .process => [⟨"argv", "std::env::args().collect::<Vec<String>>()", .textSequence⟩]
  | _ => []

/-- The constant of a namespace with the given name. Reference: `constant`. -/
def constant? (ns : Namespace) (name : String) : Option Constant :=
  ns.constants.find? (·.name == name)

end Namespace

end Oxidize
