import Oxidize.Json.Record

/-!
# Options of a run

The reader takes options as a record. The cap on the passes of the duplicable closure has two names,
of which at most one may be given.
-/

namespace Oxidize

/-- What a run can be told. -/
structure Options where
  /-- Expressions without a sure meaning are errors. -/
  strict : Bool := false
  /-- How many passes the duplicable closure may take. -/
  maxIterations : Nat := 64
  /-- Comment lines above the emitted source. -/
  header : Option String := none
deriving DecidableEq, Repr

namespace Options

/-- The name of the cap in a record. -/
def capName : String := "max_fixpoint_iterations"

/-- The other name of the cap. -/
def capAlias : String := "max_iterations"

/-- A record with the other name of the cap replaced by its name. -/
def withoutAlias : Json → Json
  | .object members => .object (members.map fun m => if m.1 = capAlias then (capName, m.2) else m)
  | j => j

/-- Options from a record. -/
def ofJson? (j : Json) : Option Options := do
  let [strict, cap, header] ← (withoutAlias j).fields? ["strict", capName, "header"] | none
  return {
    strict := ← Json.withDefault false Json.bool? strict
    maxIterations := ← Json.withDefault 64 Json.nat? cap
    header := ← Json.optional Json.string? header }

end Options

end Oxidize
