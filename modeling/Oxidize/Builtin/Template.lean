import Oxidize.Number.Count
import Oxidize.Ty

/-!
# Templates of builtin calls

A template is text with placeholders in braces: `recv` the receiver, a number the argument at that
place, a number with `:usize` the same argument cast, `args` all arguments, `fmt` a format string
with the arguments, `range` a range built from the first two arguments. Any other group in braces
is kept as it stands. `Template.expand` walks the template once and never looks at what it put in.
-/

namespace Oxidize

/-- What the placeholders of a template stand for. -/
structure CallTexts where
  receiver : Option String
  args : List String
  argTys : List Ty

/-- The text cast to `usize`, in parentheses unless it is a plain path or literal. Reference:
`as_usize`. -/
def asUsize (code : String) : String :=
  if code.toList.all fun c => c.isAlphanum || c == '_' || c == '.' then code ++ " as usize"
  else "(" ++ code ++ ") as usize"

namespace Template

/-- How an argument is shown in a format string: plainly if its type is a primitive with a value. -/
def formatGroup : Option Ty → String
  | some t =>
    match t.stripRefs with
    | .prim p => if p == .void then "\x7b:?\x7d" else "\x7b\x7d"
    | _ => "\x7b:?\x7d"
  | none => "\x7b:?\x7d"

/-- The format groups of arguments, by position of their types. -/
def formatGroups : List String → List Ty → List String
  | [], _ => []
  | _ :: args, [] => formatGroup none :: formatGroups args []
  | _ :: args, t :: tys => formatGroup (some t) :: formatGroups args tys

/-- A format string for the arguments, followed by the arguments. Reference: `format_args_list`. -/
def formatArgs (args : List String) (argTys : List Ty) : String :=
  if args.isEmpty then ""
  else "\"" ++ String.intercalate " " (formatGroups args argTys) ++ "\", " ++
    String.intercalate ", " args

/-- What a placeholder stands for, nothing if it is no placeholder. Reference:
`expand_placeholder`. -/
def placeholder? (texts : CallTexts) (key : String) : Option String :=
  match key with
  | "recv" => some (texts.receiver.getD "")
  | "args" => some (String.intercalate ", " texts.args)
  | "fmt" => some (formatArgs texts.args texts.argTys)
  | "range" =>
    let bound := fun i : Nat => (texts.args[i]?.map asUsize).getD ""
    some (bound 0 ++ ".." ++ bound 1)
  | key =>
    match key.toList.span (· != ':') with
    | (digits, []) => (count? digits).map fun i => texts.args[i]?.getD ""
    | (digits, suffix) =>
      if suffix = [':', 'u', 's', 'i', 'z', 'e'] then
        (count? digits).map fun i => asUsize (texts.args[i]?.getD "")
      else none

/-- The template with every group replaced that `replace` knows. The first argument is the text of
the open group, latest character first; an open group that never closes is kept as it stands. -/
def expandFrom (replace : String → Option String) : Option (List Char) → List Char → List Char
  | none, [] => []
  | some key, [] => '\x7b' :: key.reverse
  | none, c :: rest =>
    if c = '\x7b' then expandFrom replace (some []) rest
    else c :: expandFrom replace none rest
  | some key, c :: rest =>
    if c = '\x7d' then
      let name := String.ofList key.reverse
      ((replace name).getD ("\x7b" ++ name ++ "\x7d")).toList ++ expandFrom replace none rest
    else expandFrom replace (some (c :: key)) rest

/-- A template with its placeholders replaced. Reference: `render_template`. -/
def expand (template : String) (texts : CallTexts) : String :=
  String.ofList (expandFrom (placeholder? texts) none template.toList)

end Template

end Oxidize
