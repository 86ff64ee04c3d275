import Oxidize.Ty

/-!
# Lexical scopes

A `Scope` is a stack of frames that is never empty: `pop` keeps the outermost one. Names are looked
up from the innermost frame outward, and in a frame the latest declaration counts. `Env` gives each
name its type. `Bindings` gives each declaration a number, counted up from zero and never reused.
-/

namespace Oxidize

/-- The names of one frame, latest first. -/
abbrev Frame (α : Type) := List (String × α)

/-- A stack of frames. -/
structure Scope (α : Type) where
  inner : Frame α
  outer : List (Frame α)

namespace Scope

variable {α : Type}

/-- A single frame without names. -/
def empty : Scope α :=
  ⟨[], []⟩

/-- A new innermost frame. Reference: `push_scope`; `Scopes.push`. -/
def push (s : Scope α) : Scope α :=
  ⟨[], s.inner :: s.outer⟩

/-- The scope without its innermost frame, unless that is the only one. Reference: `pop_scope`;
`Scopes.pop`. -/
def pop (s : Scope α) : Scope α :=
  match s.outer with
  | [] => s
  | frame :: rest => ⟨frame, rest⟩

/-- A name declared in the innermost frame. Reference: `Env.declare`. -/
def declare (s : Scope α) (name : String) (a : α) : Scope α :=
  ⟨(name, a) :: s.inner, s.outer⟩

/-- What a name stands for. Reference: `Env.lookup`. -/
def lookup? (s : Scope α) (name : String) : Option α :=
  (s.inner :: s.outer).findSome? (·.lookup name)

/-- A name that stands for something. Reference: `is_local`. -/
def isLocal (s : Scope α) (name : String) : Bool :=
  (s.lookup? name).isSome

/-- How many frames there are. -/
def depth (s : Scope α) : Nat :=
  s.outer.length + 1

end Scope

/-- The types of the local variables. -/
abbrev Env := Scope Ty

/-- A declaration of a local variable, as its place in the order of declarations. -/
abbrev BindingId := Nat

/-- The numbers of the local variables in scope, and the names of all variables declared so far, each
at the place of its number. -/
structure Bindings where
  scope : Scope BindingId
  declared : List String

namespace Bindings

/-- No variable yet. -/
def empty : Bindings :=
  ⟨.empty, []⟩

/-- The number that the next declaration gets. -/
def next (b : Bindings) : BindingId :=
  b.declared.length

/-- A new innermost frame. -/
def push (b : Bindings) : Bindings :=
  ⟨b.scope.push, b.declared⟩

/-- The bindings without their innermost frame; numbers given in it stay given. -/
def pop (b : Bindings) : Bindings :=
  ⟨b.scope.pop, b.declared⟩

/-- A new binding, which hides an earlier one of the same name. Its number is the old `next`.
Reference: `Scopes.declare`. -/
def declare (b : Bindings) (name : String) : Bindings :=
  ⟨b.scope.declare name b.next, b.declared ++ [name]⟩

/-- The binding a name refers to. Reference: `Scopes.lookup`. -/
def lookup? (b : Bindings) (name : String) : Option BindingId :=
  b.scope.lookup? name

/-- A name that refers to a binding. -/
def isLocal (b : Bindings) (name : String) : Bool :=
  b.scope.isLocal name

end Bindings

end Oxidize
