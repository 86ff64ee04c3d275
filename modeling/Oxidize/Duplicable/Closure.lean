import Oxidize.Diagnostic
import Oxidize.Duplicable.CopySet
import Oxidize.Traced

/-!
# The closure of duplicable declarations

`Program.copyClosure` tags every aggregate whose fields are all admitted. It starts from the enums
without data and from what is tagged already, and passes over the declarations in order until a
pass changes nothing or a given number of passes is used up. Within a pass a later aggregate sees
what earlier ones added. Only derive tags change.
-/

namespace Oxidize

/-- Derive tags with those of duplicable declarations added where missing. Reference: `add_tags`. -/
def addCopyTags (derives : List String) : List String :=
  ["Clone", copyTag].foldl (fun tags tag => if tags.contains tag then tags else tags ++ [tag])
    derives

namespace Decl

/-- The declaration with the tags of duplicable declarations. Reference: `add_tags`, as
`compute_copy_closure` calls it. -/
def withCopyTags : Decl → Decl
  | .struct s => .struct { s with derives := addCopyTags s.derives }
  | .enum e => .enum { e with derives := addCopyTags e.derives }
  | d => d

/-- The name of a declaration that is duplicable from the start. Reference: the first loop of
`compute_copy_closure`. -/
def seed? : Decl → Option String
  | .enum e => if e.hasCopy || e.isFieldless then some e.name else none
  | .struct s => if s.hasCopy then some s.name else none
  | _ => none

/-- The name of an aggregate that is not in the set although all its fields are admitted. Reference:
the test in the passes of `compute_copy_closure`. -/
def promotable? (set : CopySet) : Decl → Option String
  | .struct s =>
    if !set.contains s.name && s.fields.all fun f => set.admits f.ty then some s.name else none
  | _ => none

end Decl

/-- What the closure came to. Reference: `DeriveOutcome`. -/
structure ClosureOutcome where
  /-- Names of the duplicable declarations, sorted. -/
  copyable : List String
  /-- Passes run, the last one that changed nothing included. -/
  iterations : Nat
  /-- Nothing is left to tag. -/
  converged : Bool
deriving DecidableEq, Repr

/-- The warning about a closure that did not converge. Reference: `DeriveOutcome.warning`. -/
def ClosureOutcome.warning? (o : ClosureOutcome) : Option Warning :=
  if o.converged then none else some (.unsettled o.iterations)

/-- The declarations and the set they are judged by, between passes. -/
structure ClosureState where
  decls : List Decl
  set : CopySet

namespace ClosureState

/-- The state before the first pass. Reference: the first loop of `compute_copy_closure`. -/
def start (p : Program) : ClosureState where
  decls := p.decls.map fun d => if d.seed?.isSome then d.withCopyTags else d
  set := (p.decls.filterMap Decl.seed?).foldl CopySet.insert (.ofRegistry (.ofProgram p))

/-- One pass over declarations. Reference: one pass of `compute_copy_closure`. -/
def passOver (pass : Nat) : CopySet → List Decl → Traced Note ClosureState
  | set, [] => return ⟨[], set⟩
  | set, d :: ds =>
    match d.promotable? set with
    | some name => do
      .tell (.duplicable pass name)
      let rest ← passOver pass (set.insert name) ds
      return ⟨d.withCopyTags :: rest.decls, rest.set⟩
    | none => do
      let rest ← passOver pass set ds
      return ⟨d :: rest.decls, rest.set⟩

/-- Nothing is left to tag. Reference: the test of `compute_copy_closure` after its last pass. -/
def isSettled (s : ClosureState) : Bool :=
  s.decls.all fun d => (d.promotable? s.set).isNone

/-- The outcome of stopping here. -/
def outcome (s : ClosureState) (iterations : Nat) (converged : Bool) : ClosureOutcome :=
  ⟨s.set.names.mergeSort (· ≤ ·), iterations, converged⟩

/-- Passes until nothing changes, at most `left` of them after the `done` already run. Reference: the
passes of `compute_copy_closure`. -/
def settle : Nat → Nat → ClosureState → Traced Note (ClosureState × ClosureOutcome)
  | 0, done, s => return (s, s.outcome done s.isSettled)
  | left + 1, done, s => do
    let next ← passOver (done + 1) s.set s.decls
    if next.set.names.length = s.set.names.length then
      return (next, next.outcome (done + 1) true)
    else settle left (done + 1) next

end ClosureState

/-- The program with its duplicable aggregates and enums tagged, after at most `cap` passes.
Reference: `compute_copy_closure`. -/
def Program.copyClosure (p : Program) (cap : Nat) : Traced Note (Program × ClosureOutcome) := do
  let (state, outcome) ← ClosureState.settle cap 0 (.start p)
  .tellIf (!outcome.converged) (.closureStopped outcome.iterations)
  return (⟨state.decls⟩, outcome)

end Oxidize
