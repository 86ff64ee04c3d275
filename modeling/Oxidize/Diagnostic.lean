import Oxidize.Builtin.Rule
import Oxidize.Expr

/-!
# What a run reports

A `Note` is a record of something that a pass decided, a `Fault` is what makes strict resolution
fail, a `Warning` is reported along with a successful result, and a `PendingLiteral` is the one
thing that rendering cannot handle. Each is a cause; its wording is in one function.
-/

namespace Oxidize

/-- Why an expression has no sure meaning. -/
inductive FaultCause where
  | unbound (name : String)
  | ambiguousMethod (method : String)
  | missingField (struct field : String)
deriving DecidableEq, Repr

/-- An expression without a sure meaning. -/
structure Fault where
  cause : FaultCause
  span : Span
deriving DecidableEq, Repr

/-- The wording of a fault. -/
def FaultCause.message : FaultCause → String
  | .unbound name => "unbound identifier `" ++ name ++ "`"
  | .ambiguousMethod method =>
    "cannot tell whether `." ++ method ++ "()` is a sequence or a text method"
  | .missingField struct field => "`" ++ struct ++ "` has no field `" ++ field ++ "`"

/-- The wording of a fault as an error. -/
def Fault.message (f : Fault) : String :=
  "semantic error: " ++ f.cause.message

/-- An aggregate literal whose target is not known when it has to be rendered. -/
structure PendingLiteral where
  span : Span
deriving DecidableEq, Repr

/-- The wording of a pending literal as an error. -/
def PendingLiteral.message (_ : PendingLiteral) : String :=
  "Rust backend error: aggregate literal has no target type; " ++
    "give the value it initializes a declared type"

/-- A finding that does not stop a run. -/
inductive Warning where
  | unsettled (passes : Nat)
  | valueCycle (group : List String)
deriving DecidableEq, Repr

namespace Warning

/-- The stable code of a warning. -/
def code : Warning → String
  | .unsettled _ => "rivet::derive::no_fixpoint"
  | .valueCycle _ => "rivet::derive::value_cycle"

/-- The wording of a warning. -/
def message : Warning → String
  | .unsettled passes =>
    "duplicable-type closure did not settle within " ++ toString passes ++ " passes"
  | .valueCycle group =>
    String.intercalate ", " group ++ " contain each other by value; one field needs indirection"

/-- A warning as one line. -/
def display (w : Warning) : String :=
  "warning[" ++ w.code ++ "]: " ++ w.message

end Warning

/-- A record of what a pass decided. -/
inductive Note where
  | noMember (ns : Namespace) (method : String)
  | dispatched (method : String) (receiver : Ty) (table : Table) (ambiguous : Bool)
  | retargeted (name : String)
  | duplicable (pass : Nat) (name : String)
  | closureStopped (passes : Nat)
  | closureDone (copyable passes : Nat)
  | valueCycle (group : List String)
  | warned (warning : Warning)
  | analyzed (function : String) (bindings duplicated : Nat)
  | fallsThrough (pattern : String)
  | pendingLiteral
  | emitted (items fallthroughs : Nat)
deriving DecidableEq

/-- How much a note matters. -/
inductive Level where
  | debug
  | warn
deriving DecidableEq, Repr

namespace Note

/-- How much a note matters. -/
def level : Note → Level
  | .closureStopped _ | .valueCycle _ | .warned _ | .pendingLiteral => .warn
  | _ => .debug

/-- The wording of a note. -/
def message : Note → String
  | .noMember ns method => "no `" ++ ns.ident ++ "` member named `" ++ method ++ "`"
  | .dispatched method receiver table ambiguous =>
    "`." ++ method ++ "()` on " ++ receiver.display ++ " dispatched to " ++ table.display ++
      (if ambiguous then " (ambiguous)" else "")
  | .retargeted name => "aggregate literal retargeted to `" ++ name ++ "`"
  | .duplicable pass name => "pass " ++ toString pass ++ ": `" ++ name ++ "` is duplicable"
  | .closureStopped passes =>
    "duplicable-type closure stopped after " ++ toString passes ++ " passes without settling"
  | .closureDone copyable passes =>
    "derive closure: " ++ toString copyable ++ " copyable after " ++ toString passes ++ " passes"
  | .valueCycle group => "by-value cycle between " ++ String.intercalate ", " group
  | .warned warning => warning.display
  | .analyzed function bindings duplicated =>
    "`" ++ function ++ "`: " ++ toString bindings ++ " bindings, " ++ toString duplicated ++
      " need duplication"
  | .fallsThrough pattern =>
    "switch case `" ++ pattern ++ "` falls through; emitted as its own arm"
  | .pendingLiteral => "aggregate literal reached generation without a target type"
  | .emitted items fallthroughs =>
    "emitted " ++ toString items ++ " items (" ++ toString fallthroughs ++
      " switch cases fall through)"

end Note

/-- The spelling of a level. -/
def Level.display : Level → String
  | .debug => "debug"
  | .warn => "warn"

end Oxidize
