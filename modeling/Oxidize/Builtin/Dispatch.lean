import Oxidize.Builtin.Rule
import Oxidize.Expr

/-!
# Which builtin a call means

`Dispatch.of?` picks the rule of a method call from the namespace it names or the type of its
receiver. Type resolution, usage analysis and rendering all decide by it, and by `namespaceOf?` for
the namespace.
-/

namespace Oxidize

/-- The namespace a call or field access addresses. A tag decides alone; without one, an identifier
that no local variable hides may name a namespace. Reference: `namespace_of`. -/
def namespaceOf? (tag : Option String) (object : Expr) (isLocal : String → Bool) :
    Option Namespace :=
  match tag with
  | some tag => Namespace.ofIdent? tag
  | none =>
    match object.ident? with
    | some name => if isLocal name then none else Namespace.ofIdent? name
    | none => none

/-- The builtin a call means. -/
structure Dispatch where
  table : Table
  rule : Rule
  /-- Both the sequence and the text table know the method and the receiver's type is unknown. -/
  ambiguous : Bool
deriving DecidableEq, Repr

namespace Dispatch

/-- The method of one table. Reference: `typed`. -/
def inTable? (table : Table) (method : String) : Option Dispatch :=
  (table.lookup? method).map fun rule => ⟨table, rule, false⟩

/-- The method of an untyped receiver: a name that only one of the two tables of values has goes to
that one, and a name that both have goes to sequences. Reference: the end of `dispatch`. -/
def byName? (method : String) : Option Dispatch :=
  match Table.sequence.lookup? method, Table.text.lookup? method with
  | some rule, none => some ⟨.sequence, rule, false⟩
  | none, some rule => some ⟨.text, rule, false⟩
  | some rule, some _ => some ⟨.sequence, rule, true⟩
  | none, none => none

/-- The builtin of a method call on a value. A known type other than a sequence or text has no
builtin methods. -/
def onValue? (receiver : Option Ty) (method : String) : Option Dispatch :=
  match receiver.map Ty.stripRefs with
  | some (.seq _) => inTable? .sequence method
  | some t =>
    if t.isText then inTable? .text method
    else if t.isVoid then byName? method
    else none
  | none => byName? method

/-- The builtin of a method call. Reference: `dispatch`. -/
def of? (ns : Option Namespace) (receiver : Option Ty) (method : String) : Option Dispatch :=
  match ns with
  | some ns => inTable? (.ns ns) method
  | none => onValue? receiver method

end Dispatch

end Oxidize
