import Oxidize.Diagnostic
import Oxidize.Digraph
import Oxidize.Registry
import Oxidize.Traced

/-!
# Aggregates that contain themselves by value

Aggregates that contain each other through fields, tuples and optionals have no finite size. The
groups of such aggregates are the cycles of the graph of by-value containment.
-/

namespace Oxidize

namespace Ty

mutual

/-- The aggregates that a value of the type holds within itself. Reference: `by_value_targets`. -/
def heldNames : Ty → List String
  | .aggregate name => [name]
  | .tuple elems => heldNamesList elems
  | .optional inner => inner.heldNames
  | .prim _ | .enum _ | .seq _ | .ref _ _ | .fn _ _ => []

/-- The aggregates that values of the types hold within themselves. -/
def heldNamesList : List Ty → List String
  | [] => []
  | t :: ts => t.heldNames ++ heldNamesList ts

end

end Ty

/-- The names that an aggregate holds by value, by field. -/
def StructDecl.heldNames (r : Registry) (s : StructDecl) : List String :=
  s.fields.flatMap fun f => (r.normalize f.ty).heldNames

namespace Program

/-- The place among the aggregates of the one with the given name. Of several declarations of a name
the last counts. Reference: `index` in `find_value_cycles`. -/
def structPlace? (p : Program) (name : String) : Option Nat :=
  (findLast? (·.1.name == name) p.structs.zipIdx).map (·.2)

/-- Which aggregate holds which by value, each numbered by its place. Reference: `edges` in
`find_value_cycles`. -/
def valueGraph (p : Program) : Digraph :=
  let r := Registry.ofProgram p
  ⟨(p.structs.map fun s => (s.heldNames r).filterMap p.structPlace?).toArray⟩

/-- The names of the aggregates at the given places, sorted. -/
def namesAt? (p : Program) (places : List Nat) : Option (List String) := do
  let names ← places.mapM fun place => (p.structs[place]?).map (·.name)
  return names.mergeSort (· ≤ ·)

/-- Groups of aggregates that contain each other by value, each sorted, in order, unless something
that is no aggregate was looked up. -/
def valueCycles? (p : Program) : Option (List (List String)) := do
  let groups ← (← p.valueGraph.cycles?).mapM p.namesAt?
  return groups.mergeSort fun a b => !decide (b < a)

/-- Groups of aggregates that contain each other by value, each sorted, in order. Reference:
`find_value_cycles`. -/
def valueCycles (p : Program) : List (List String) :=
  p.valueCycles?.getD []

/-- The warnings about the groups. Reference: `value_cycle_warnings`. -/
def valueCycleWarnings (p : Program) : Traced Note (List Warning) :=
  ⟨p.valueCycles.map .valueCycle, p.valueCycles.map .valueCycle⟩

end Program

end Oxidize
