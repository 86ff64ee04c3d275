import Oxidize.Stmt

/-!
# Programs

A program is a list of declarations: aggregates, enums, aliases, functions, and blocks of methods
for an aggregate. The views `Program.structs`, `Program.enums` and so on keep the order of the
declarations of one kind.
-/

namespace Oxidize

/-- A field of an aggregate or of a variant. -/
structure FieldDecl where
  name : String
  ty : Ty
deriving DecidableEq

/-- An aggregate. The derive tags grow when the aggregate turns out to be duplicable. -/
structure StructDecl where
  span : Span
  name : String
  fields : List FieldDecl
  derives : List String
deriving DecidableEq

/-- What a variant of an enum carries. -/
inductive VariantShape where
  | unit
  | tuple (tys : List Ty)
  | struct (fields : List FieldDecl)
deriving DecidableEq

namespace VariantShape

/-- The types a variant carries, in order. -/
def payload : VariantShape → List Ty
  | .unit => []
  | .tuple tys => tys
  | .struct fields => fields.map (·.ty)

/-- A variant that carries nothing, however it is written. -/
def isUnit (shape : VariantShape) : Bool :=
  shape.payload.isEmpty

end VariantShape

/-- A variant of an enum. -/
structure VariantDecl where
  name : String
  shape : VariantShape
deriving DecidableEq

/-- An enum. -/
structure EnumDecl where
  span : Span
  name : String
  variants : List VariantDecl
  derives : List String
deriving DecidableEq

namespace EnumDecl

/-- No variant carries anything. -/
def isFieldless (e : EnumDecl) : Bool :=
  e.variants.all (·.shape.isUnit)

/-- The first variant with the given name. -/
def variant? (e : EnumDecl) (name : String) : Option VariantDecl :=
  e.variants.find? (·.name == name)

end EnumDecl

/-- Another name for a type. -/
structure AliasDecl where
  span : Span
  name : String
  target : Ty
deriving DecidableEq

/-- How a method takes the value it is called on. -/
inductive Receiver where
  | byRef
  | byMut
  | byValue
deriving DecidableEq, Repr

/-- The name of the receiver in the body of a method. -/
def receiverName : String := "this"

/-- A parameter. -/
structure Param where
  name : String
  ty : Ty
  mutable : Bool
deriving DecidableEq

/-- A function, or a method if it has a receiver. -/
structure FunctionDecl where
  span : Span
  name : String
  params : List Param
  ret : Ty
  body : Block
  isPublic : Bool
  receiver : Option Receiver

/-- Methods of one aggregate. -/
structure ImplBlock where
  span : Span
  target : String
  methods : List FunctionDecl

/-- A declaration. -/
inductive Decl where
  | struct (s : StructDecl)
  | enum (e : EnumDecl)
  | alias (a : AliasDecl)
  | function (f : FunctionDecl)
  | impl (b : ImplBlock)

namespace Decl

/-- The aggregate a declaration declares. -/
def struct? : Decl → Option StructDecl
  | .struct s => some s
  | _ => none

/-- The enum a declaration declares. -/
def enum? : Decl → Option EnumDecl
  | .enum e => some e
  | _ => none

/-- The alias a declaration declares. -/
def alias? : Decl → Option AliasDecl
  | .alias a => some a
  | _ => none

/-- The function a declaration declares. -/
def function? : Decl → Option FunctionDecl
  | .function f => some f
  | _ => none

/-- The method block a declaration is. -/
def impl? : Decl → Option ImplBlock
  | .impl b => some b
  | _ => none

end Decl

/-- A program. -/
structure Program where
  decls : List Decl

namespace Program

/-- The aggregates, in order. -/
def structs (p : Program) : List StructDecl :=
  p.decls.filterMap Decl.struct?

/-- The enums, in order. -/
def enums (p : Program) : List EnumDecl :=
  p.decls.filterMap Decl.enum?

/-- The aliases, in order. -/
def aliases (p : Program) : List AliasDecl :=
  p.decls.filterMap Decl.alias?

/-- The functions, in order. -/
def functions (p : Program) : List FunctionDecl :=
  p.decls.filterMap Decl.function?

/-- The method blocks, in order. -/
def impls (p : Program) : List ImplBlock :=
  p.decls.filterMap Decl.impl?

/-- The methods of all method blocks, then the functions. -/
def bodies (p : Program) : List FunctionDecl :=
  p.impls.flatMap (·.methods) ++ p.functions

/-- The first aggregate with the given name. -/
def findStruct? (p : Program) (name : String) : Option StructDecl :=
  p.structs.find? (·.name == name)

/-- The first enum with the given name. -/
def findEnum? (p : Program) (name : String) : Option EnumDecl :=
  p.enums.find? (·.name == name)

end Program

end Oxidize
