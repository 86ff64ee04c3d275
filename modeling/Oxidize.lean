import Oxidize.Number.Decimal
import Oxidize.Json.Parser
import Oxidize.Json.Printer
import Oxidize.Json.Record
import Oxidize.Program.Reader
import Oxidize.Registry
import Oxidize.Scope
import Oxidize.Builtin.Dispatch
import Oxidize.Typing.Resolve
import Oxidize.Duplicable.Closure
import Oxidize.Usage.Report
import Oxidize.Text.Case
import Oxidize.Text.Printable
import Oxidize.Compile
import Oxidize.Main
import Oxidize.Proofs.Nodes
import Oxidize.Proofs.Usage.Walk
import Oxidize.Proofs.Emit.Countdown
import Oxidize.Proofs.Emit.Breaks
import Oxidize.Proofs.Emit.Operators
import Oxidize.Proofs.Emit.Capture
import Oxidize.Proofs.Emit.MutArguments
import Oxidize.Proofs.Emit.Hygiene
import Oxidize.Proofs.Emit.WholeArguments
import Oxidize.Proofs.Duplicable.PassesEnd
import Oxidize.Proofs.Duplicable.LeastClosure
import Oxidize.Proofs.Duplicable.ValueCycles
import Oxidize.Proofs.Duplicable.Recursion
import Oxidize.Proofs.Builtin.Agreement
import Oxidize.Proofs.Builtin.Concatenation
import Oxidize.Proofs.Duplicable.Composition
import Oxidize.Proofs.Typing.Idempotence
import Oxidize.Proofs.Interleaving
import Oxidize.Proofs.Program.RoundTrip
import Oxidize.Proofs.Emit.PendingLiterals
import Oxidize.Proofs.Typing.Verdict
import Oxidize.Proofs.Typing.Completeness
import Oxidize.Proofs.Emit.OwnedElements
import Oxidize.Proofs.Duplicable.DeriveTags
import Oxidize.Proofs.Usage.Renaming
import Oxidize.Proofs.Emit.Mutable
import Oxidize.Proofs.Typing.Frame
import Oxidize.Proofs.Duplicable.OwningParts
import Oxidize.Proofs.ScopeHistory
import Oxidize.Proofs.Emit.AppendOnly
import Oxidize.Proofs.Emit.Ending
