import Oxidize.Emit.Program
import Oxidize.Duplicable.Closure
import Oxidize.Duplicable.ValueCycle
import Oxidize.Options
import Oxidize.Typing.Resolve

/-!
# From a program to its source

`Program.analyze` resolves a program, closes its duplicable types and collects what is to be said
about it. `Program.compile` goes on to emit the source. Both keep the notes of all passes in order,
also where they fail.
-/

namespace Oxidize

/-- Why a program has no source. -/
inductive CompileError where
  | fault (f : Fault)
  | pendingLiteral (p : PendingLiteral)
deriving DecidableEq, Repr

/-- The wording of an error. -/
def CompileError.message : CompileError → String
  | .fault f => f.message
  | .pendingLiteral p => p.message

/-- An annotated program with what was found about it. -/
structure Analysis where
  program : Program
  warnings : List Warning
  suggestions : List Suggestion
  outcome : ClosureOutcome

/-- The source of a program with what was found about it. -/
structure Compiled where
  source : String
  warnings : List Warning
  suggestions : List Suggestion
  outcome : ClosureOutcome

namespace Program

/-- A program with every expression annotated. A fault is an error only if `strict` says so.
Reference: `resolve_with`, as `analyze` calls it. -/
def resolved (p : Program) (strict : Bool) : Traced Note (Except Fault Program) where
  value := (p.resolveWith strict).verdict
  trace := p.resolve.trace.filterMap Finding.note?

/-- The hints about the variables of a function. -/
def suggestionsFor (copy : CopySet) (f : FunctionDecl) : Traced Note (List Suggestion) :=
  let report := f.usage copy
  ⟨report.suggest copy f, [report.note f]⟩

/-- The hints about the variables of every body of a program. Reference: `suggest` on
`all_functions`. -/
def suggestions (p : Program) : Traced Note (List Suggestion) := do
  let copy := CopySet.ofProgram p (.ofProgram p)
  return (← p.bodies.mapM (suggestionsFor copy)).flatten

/-- What is found about a program whose expressions are annotated. Reference: `analyze`, after
`resolve_with`. -/
def findings (p : Program) (cap : Nat) : Traced Note Analysis := do
  let (p, outcome) ← p.copyClosure cap
  .tell (.closureDone outcome.copyable.length outcome.iterations)
  let cycles ← p.valueCycleWarnings
  let warnings := outcome.warning?.toList ++ cycles
  .tellAll (warnings.map .warned)
  return ⟨p, warnings, ← p.suggestions, outcome⟩

/-- Everything short of emission. Reference: `analyze`. -/
def analyze (p : Program) (options : Options) : Traced Note (Except Fault Analysis) := do
  match ← p.resolved options.strict with
  | .error fault => return .error fault
  | .ok p => return .ok (← p.findings options.maxIterations)

/-- The source of a program. Reference: `translate`. -/
def compile (p : Program) (options : Options) : Traced Note (Except CompileError Compiled) := do
  match ← p.analyze options with
  | .error fault => return .error (.fault fault)
  | .ok a =>
    match ← a.program.emit (.ofProgram a.program) options.header with
    | .error pending => return .error (.pendingLiteral pending)
    | .ok source => return .ok ⟨source, a.warnings, a.suggestions, a.outcome⟩

end Program

end Oxidize
