import Oxidize.Program

/-!
# The declared names of a program

A `Registry` answers what a name is declared as. Where a name is declared twice the later
declaration counts. `Registry.normalize` expands aliases and tells enums from aggregates; it
descends at most `maxAliasDepth` layers, so it ends on cyclic aliases too and leaves what lies
below untouched.

Here and in the modules of the passes, the reference at the end of a docstring is the function of
`rivet` that the definition embeds.
-/

namespace Oxidize

/-- What a call needs to know of a function or method. -/
structure FnSig where
  params : List Ty
  ret : Ty
  receiver : Option Receiver
deriving DecidableEq

/-- The signature of a function. Reference: `FnSig.of`. -/
def FunctionDecl.sig (f : FunctionDecl) : FnSig :=
  ⟨f.params.map (·.ty), f.ret, f.receiver⟩

/-- A method under the name of the aggregate it belongs to. -/
structure MethodEntry where
  target : String
  name : String
  sig : FnSig
deriving DecidableEq

/-- The declared names of a program, in order of declaration. -/
structure Registry where
  structs : List StructDecl
  enums : List EnumDecl
  aliases : List AliasDecl
  functions : List (String × FnSig)
  methods : List MethodEntry
deriving DecidableEq

/-- The last entry with a property. -/
def findLast? {α : Type} (p : α → Bool) (entries : List α) : Option α :=
  entries.reverse.find? p

namespace Registry

/-- No declarations. -/
def empty : Registry :=
  ⟨[], [], [], [], []⟩

/-- The declarations of a program. Reference: `TypeRegistry.from_program`. -/
def ofProgram (p : Program) : Registry where
  structs := p.structs
  enums := p.enums
  aliases := p.aliases
  functions := p.functions.map fun f => (f.name, f.sig)
  methods := p.impls.flatMap fun b => b.methods.map fun m => ⟨b.target, m.name, m.sig⟩

/-- The aggregate with the given name. Reference: `struct_decl`. -/
def struct? (r : Registry) (name : String) : Option StructDecl :=
  findLast? (·.name == name) r.structs

/-- The enum with the given name. Reference: `enum_decl`. -/
def enum? (r : Registry) (name : String) : Option EnumDecl :=
  findLast? (·.name == name) r.enums

/-- What an alias stands for. Reference: `alias`. -/
def alias? (r : Registry) (name : String) : Option Ty :=
  (findLast? (·.name == name) r.aliases).map (·.target)

/-- The signature of the function with the given name. Reference: `function`. -/
def function? (r : Registry) (name : String) : Option FnSig :=
  (findLast? (·.1 == name) r.functions).map (·.2)

/-- The signature of a method of the given aggregate. Reference: `method`. -/
def method? (r : Registry) (target name : String) : Option FnSig :=
  (findLast? (fun m => m.target == target && m.name == name) r.methods).map (·.sig)

/-- The name of an aggregate. Reference: `is_struct`. -/
def isStruct (r : Registry) (name : String) : Bool :=
  (r.struct? name).isSome

/-- The name of an enum. Reference: `is_enum`. -/
def isEnum (r : Registry) (name : String) : Bool :=
  (r.enum? name).isSome

/-- The declared type of a field. Reference: `field_type`. -/
def fieldType? (r : Registry) (name field : String) : Option Ty := do
  let s ← r.struct? name
  return (← s.fields.find? (·.name == field)).ty

/-- The shape of a variant. -/
def variantShape? (r : Registry) (enumName variant : String) : Option VariantShape := do
  let e ← r.enum? enumName
  return (← e.variant? variant).shape

/-- The types a variant carries. Reference: `variant_payload`. -/
def variantPayload? (r : Registry) (enumName variant : String) : Option (List Ty) :=
  (r.variantShape? enumName variant).map (·.payload)

/-- A type with the aliases of its first `n` layers expanded. A layer is a type constructor or the
step from an alias to its target. Reference: `normalize_depth`, which counts the layers upwards. -/
def normalizeWithin (r : Registry) : Nat → Ty → Ty
  | 0, t => t
  | n + 1, t =>
    match t with
    | .prim p => .prim p
    | .aggregate name | .enum name =>
      match r.alias? name with
      | some target => r.normalizeWithin n target
      | none => if r.isEnum name then .enum name else .aggregate name
    | .seq elem => .seq (r.normalizeWithin n elem)
    | .tuple elems => .tuple (elems.map (r.normalizeWithin n))
    | .optional inner => .optional (r.normalizeWithin n inner)
    | .ref inner mutable => .ref (r.normalizeWithin n inner) mutable
    | .fn params ret => .fn (params.map (r.normalizeWithin n)) (r.normalizeWithin n ret)

/-- How deep below the top of a type aliases are still expanded. -/
def maxAliasDepth : Nat := 32

/-- A type with its aliases expanded and its names sorted into aggregates and enums. Reference:
`TypeRegistry.normalize`. -/
def normalize (r : Registry) (t : Ty) : Ty :=
  r.normalizeWithin (maxAliasDepth + 1) t

/-- How deep the full expansion of a type can be when no alias contains itself: each alias is met
at most once on the way down. Reference: none (calls are not counted there). -/
def expansionBound (r : Registry) (t : Ty) : Nat :=
  t.depth + r.aliases.foldr (fun a sum => a.target.depth + sum) 0 + 1

/-- As many layers as calls can be nested. Where an alias contains itself, what goes down its
expansion goes on for that long. -/
def callLimit : Nat := 0x10000000000

end Registry

end Oxidize
