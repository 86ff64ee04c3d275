import Oxidize.Diagnostic
import Oxidize.Duplicable.CopySet
import Oxidize.Usage.Event

/-!
# Usage reports

A `UsageReport` counts what a function does with each of its variables and sorts the variables into
those that need an explicit duplicate for their reads and those that could be borrowed. `suggest`
derives hints from it.
-/

namespace Oxidize

/-- How a variable is used. -/
structure VarUsage where
  name : String
  ty : Ty
  reads : Nat
  /-- Reads that only look at the variable. -/
  borrowReads : Nat
  /-- Assignments, the declaration included. -/
  writes : Nat
  /-- Changed in place, through a method or through one of its parts. -/
  mutated : Bool
  isParam : Bool
deriving DecidableEq

namespace VarUsage

/-- The variable changes after its declaration. Reference: `VarUsage.needs_mut`. -/
def needsMut (u : VarUsage) : Bool :=
  u.mutated || decide (1 < u.writes)

/-- The variable is read repeatedly and its reads are not duplicates by themselves. Reference: the
first test of `analyze_function`. -/
def needsDuplication (copy : CopySet) (u : VarUsage) : Bool :=
  !copy.isDuplicable u.ty && decide (1 < u.reads)

/-- The variable is written once and read once, and that read can take it as it is. Reference: the
second test of `analyze_function`. -/
def canBorrow (copy : CopySet) (u : VarUsage) : Bool :=
  !u.needsDuplication copy && u.writes == 1 && u.reads == 1

end VarUsage

/-- The variables that events declare, in order. -/
def declaredVars : List UsageEvent → List (String × Ty × Bool)
  | [] => []
  | .declare name ty isParam :: events => (name, ty, isParam) :: declaredVars events
  | _ :: events => declaredVars events

/-- The use of the variable with the given number among events. Reference: `VarUsage.new` and what
`Walker` adds to it. -/
def VarUsage.ofEvents (events : List UsageEvent) (name : String) (ty : Ty) (isParam : Bool)
    (id : BindingId) : VarUsage where
  name := name
  ty := ty
  reads := events.countP (·.isReadOf id)
  borrowReads := events.countP (·.isBorrowOf id)
  writes := events.countP (·.isWriteOf id) + 1
  mutated := events.any (·.isMutationOf id)
  isParam := isParam

/-- How a function uses its variables, by number. -/
structure UsageReport where
  bindings : List VarUsage
  needsDuplication : List BindingId
  canBorrow : List BindingId
deriving DecidableEq

namespace UsageReport

/-- The numbers of the variables with a property. -/
def idsWith (p : VarUsage → Bool) (bindings : List VarUsage) : List BindingId :=
  (bindings.zipIdx.filter fun u => p u.1).map (·.2)

/-- The report on the given uses. Reference: the end of `analyze_function`. -/
def ofBindings (copy : CopySet) (bindings : List VarUsage) : UsageReport where
  bindings := bindings
  needsDuplication := idsWith (·.needsDuplication copy) bindings
  canBorrow := idsWith (·.canBorrow copy) bindings

/-- The variable has to be declared mutable. Reference: `binding_needs_mut`. -/
def needsMut (report : UsageReport) (id : BindingId) : Bool :=
  report.bindings[id]?.any (·.needsMut)

/-- The first variable with the given name. Reference: `UsageReport.first`. -/
def first? (report : UsageReport) (name : String) : Option BindingId :=
  report.bindings.findIdx? (·.name == name)

end UsageReport

/-- How a function uses its variables. Reference: `analyze_function`. -/
def FunctionDecl.usage (copy : CopySet) (f : FunctionDecl) : UsageReport :=
  let events := f.usageEvents copy.registry
  .ofBindings copy ((declaredVars events).zipIdx.map fun ((name, ty, isParam), id) =>
    .ofEvents events name ty isParam id)

/-- The record of an analysis. -/
def UsageReport.note (f : FunctionDecl) (report : UsageReport) : Note :=
  .analyzed f.name report.bindings.length report.needsDuplication.length

/-- What a hint proposes. -/
inductive SuggestionKind where
  /-- Every read only looks at the variable. -/
  | removeClone
  /-- A parameter that owns its value is read once. -/
  | passByReference
deriving DecidableEq, Repr

/-- A hint about a variable of a function. -/
structure Suggestion where
  function : String
  var : String
  kind : SuggestionKind
deriving DecidableEq, Repr

namespace Suggestion

/-- A hint as one line. Reference: `Suggestion.fmt`. -/
def display (s : Suggestion) : String :=
  match s.kind with
  | .removeClone =>
    s.function ++ ": `" ++ s.var ++ "` is only borrowed; it does not need to be cloned"
  | .passByReference =>
    s.function ++ ": parameter `" ++ s.var ++
      "` is read once and could be taken by reference"

/-- Hints are ordered by variable, then by kind. Reference: the order that `suggest` sorts by. -/
def le (a b : Suggestion) : Bool :=
  if a.var = b.var then a.kind == .removeClone || b.kind == .passByReference
  else decide (a.var < b.var)

end Suggestion

/-- The hint about one variable. Reference: the loop of `suggest`. -/
def VarUsage.suggestion? (copy : CopySet) (u : VarUsage) : Option SuggestionKind :=
  if u.name = receiverName then none
  else if u.needsDuplication copy && u.borrowReads == u.reads then some .removeClone
  else if u.isParam && u.reads == 1 && !u.needsDuplication copy && !copy.isDuplicable u.ty then
    some .passByReference
  else none

/-- The hints about the variables of a function, in order. Reference: `suggest`. -/
def UsageReport.suggest (copy : CopySet) (f : FunctionDecl) (report : UsageReport) :
    List Suggestion :=
  (report.bindings.filterMap fun u =>
    (u.suggestion? copy).map fun kind => ⟨f.name, u.name, kind⟩).mergeSort Suggestion.le

end Oxidize
