import Oxidize.Json.Parser
import Oxidize.Json.Record
import Oxidize.Program.Writer

/-!
# Programs from JSON

The readers accept what the writers of `Oxidize.Program.Writer` produce and more: records by
position, absent fields that have a default, unknown members, choices without a payload over
`null`. The first argument of a reader is the number of arrays and objects it may still enter, and
every reader enters at least one of them before it calls itself, so it is also what the recursion
descends on.
-/

namespace Oxidize

open Json (fields? required withDefault optional listOf bare?)

/-- The primitives. -/
def Prim.all : List Prim :=
  [.i8, .i16, .i32, .i64, .u8, .u16, .u32, .u64, .usize, .f32, .f64, .bool, .void, .ownedText,
    .viewText]

/-- A primitive from its written name. -/
def Prim.ofJson? (n : Nat) (j : Json) : Option Prim := do
  let tag ← bare? n j
  Prim.all.find? (·.tag == tag)

/-- A unary operator from its written name. -/
def UnaryOp.ofJson? (n : Nat) (j : Json) : Option UnaryOp := do
  let tag ← bare? n j
  [UnaryOp.neg, .not].find? (·.tag == tag)

/-- The binary operators. -/
def BinOp.all : List BinOp :=
  [.add, .sub, .mul, .div, .rem, .eq, .ne, .lt, .gt, .le, .ge, .and, .or]

/-- A binary operator from its written name. -/
def BinOp.ofJson? (n : Nat) (j : Json) : Option BinOp := do
  let tag ← bare? n j
  BinOp.all.find? (·.tag == tag)

/-- A receiver from its written name. -/
def Receiver.ofJson? (n : Nat) (j : Json) : Option Receiver := do
  let tag ← bare? n j
  [Receiver.byRef, .byMut, .byValue].find? (·.tag == tag)

/-- A range. -/
def Span.ofJson? : Nat → Json → Option Span
  | 0, _ => none
  | _ + 1, j => do
    let [offset, len] ← fields? ["offset", "len"] j | none
    return ⟨← required Json.nat? offset, ← required Json.nat? len⟩

mutual

/-- A type. -/
def Ty.ofJson? : Nat → Json → Option Ty
  | 0, _ => none
  | n + 1, j => do
    let (tag, body) ← j.single?
    match tag with
    | "primitive" => return .prim (← Prim.ofJson? n body)
    | "sequence" => return .seq (← Ty.ofJson? n body)
    | "aggregate" => return .aggregate (← body.string?)
    | "enum" => return .enum (← body.string?)
    | "tuple" => return .tuple (← Ty.listOfJson? n body)
    | "optional" => return .optional (← Ty.ofJson? n body)
    | "reference" => Ty.refOfJson? n body
    | "function" => Ty.fnOfJson? n body
    | _ => none

/-- Types. -/
def Ty.listOfJson? : Nat → Json → Option (List Ty)
  | n + 1, .array items => items.mapM (Ty.ofJson? n)
  | _, _ => none

/-- A reference type from its record. -/
def Ty.refOfJson? : Nat → Json → Option Ty
  | 0, _ => none
  | n + 1, j => do
    let [inner, mutable] ← fields? ["inner", "mutable"] j | none
    return .ref (← required (Ty.ofJson? n) inner) (← required Json.bool? mutable)

/-- A function type from its record. -/
def Ty.fnOfJson? : Nat → Json → Option Ty
  | 0, _ => none
  | n + 1, j => do
    let [params, ret] ← fields? ["params", "ret"] j | none
    return .fn (← required (Ty.listOfJson? n) params) (← required (Ty.ofJson? n) ret)

end

/-- A literal. -/
def Literal.ofJson? : Nat → Json → Option Literal
  | _, .string "null" => some .null
  | _ + 1, .object [("null", .null)] => some .null
  | _ + 1, .object [("number", j)] => j.number?.map .number
  | _ + 1, .object [("bool", j)] => j.bool?.map .bool
  | _ + 1, .object [("text", j)] => j.string?.map .text
  | _, _ => none

/-- The target of an aggregate literal. -/
def AggregateTarget.ofJson? : Nat → Json → Option AggregateTarget
  | _, .string "pending" => some .pending
  | _ + 1, .object [("pending", .null)] => some .pending
  | _ + 1, .object [("named", j)] => j.string?.map .named
  | _, _ => none

mutual

/-- An expression. -/
def Expr.ofJson? : Nat → Json → Option Expr
  | 0, _ => none
  | n + 1, j => do
    let [span, kind, ty] ← fields? ["span", "kind", "ty"] j | none
    return ⟨← withDefault .zero (Span.ofJson? n) span, ← required (ExprKind.ofJson? n) kind,
      ← optional (Ty.ofJson? n) ty⟩

/-- Expressions. -/
def Expr.listOfJson? : Nat → Json → Option (List Expr)
  | n + 1, .array items => items.mapM (Expr.ofJson? n)
  | _, _ => none

/-- The kind of an expression. -/
def ExprKind.ofJson? : Nat → Json → Option ExprKind
  | 0, _ => none
  | n + 1, j => do
    let (tag, body) ← j.single?
    match tag with
    | "literal" => return .literal (← Literal.ofJson? n body)
    | "ident" => return .ident (← body.string?)
    | "array" => return .array (← Expr.listOfJson? n body)
    | "tuple" => return .tuple (← Expr.listOfJson? n body)
    | tag => ExprKind.ofRecord? n tag body

/-- The kind of an expression whose payload is a record. -/
def ExprKind.ofRecord? : Nat → String → Json → Option ExprKind
  | 0, _, _ => none
  | n + 1, tag, j =>
    match tag with
    | "unary" => do
      let [op, expr] ← fields? ["op", "expr"] j | none
      return .unary (← required (UnaryOp.ofJson? n) op) (← required (Expr.ofJson? n) expr)
    | "binary" => do
      let [op, left, right] ← fields? ["op", "left", "right"] j | none
      return .binary (← required (BinOp.ofJson? n) op) (← required (Expr.ofJson? n) left)
        (← required (Expr.ofJson? n) right)
    | "call" => do
      let [callee, args] ← fields? ["callee", "args"] j | none
      return .call (← required Json.string? callee) (← required (Expr.listOfJson? n) args)
    | "method_call" => do
      let [object, method, ns, args, objectTy] ←
        fields? ["object", "method", "namespace", "args", "object_ty"] j | none
      return .methodCall (← required (Expr.ofJson? n) object) (← required Json.string? method)
        (← optional Json.string? ns) (← required (Expr.listOfJson? n) args)
        (← optional (Ty.ofJson? n) objectTy)
    | "index" => do
      let [object, index] ← fields? ["object", "index"] j | none
      return .index (← required (Expr.ofJson? n) object) (← required (Expr.ofJson? n) index)
    | "field" => do
      let [object, field, objectTy] ← fields? ["object", "field", "object_ty"] j | none
      return .field (← required (Expr.ofJson? n) object) (← required Json.string? field)
        (← optional (Ty.ofJson? n) objectTy)
    | "aggregate" => do
      let [target, fields] ← fields? ["target", "fields"] j | none
      return .aggregate (← required (AggregateTarget.ofJson? n) target)
        (← required (FieldInit.listOfJson? n) fields)
    | "variant" => do
      let [enumName, variant, data] ← fields? ["enum_name", "variant", "data"] j | none
      return .variant (← required Json.string? enumName) (← required Json.string? variant)
        (← optional (Expr.listOfJson? n) data)
    | "ternary" => do
      let [cond, thenExpr, elseExpr] ← fields? ["cond", "then_expr", "else_expr"] j | none
      return .ternary (← required (Expr.ofJson? n) cond) (← required (Expr.ofJson? n) thenExpr)
        (← required (Expr.ofJson? n) elseExpr)
    | "cast" => do
      let [expr, ty] ← fields? ["expr", "ty"] j | none
      return .cast (← required (Expr.ofJson? n) expr) (← required (Ty.ofJson? n) ty)
    | _ => none

/-- The value of one field of an aggregate literal. -/
def FieldInit.ofJson? : Nat → Json → Option FieldInit
  | 0, _ => none
  | n + 1, j => do
    let [name, value] ← fields? ["name", "value"] j | none
    return ⟨← required Json.string? name, ← required (Expr.ofJson? n) value⟩

/-- The values of the fields of an aggregate literal. -/
def FieldInit.listOfJson? : Nat → Json → Option (List FieldInit)
  | n + 1, .array items => items.mapM (FieldInit.ofJson? n)
  | _, _ => none

end

mutual

/-- A block. -/
def Block.ofJson? : Nat → Json → Option Block
  | 0, _ => none
  | n + 1, j => do
    let [span, stmts] ← fields? ["span", "stmts"] j | none
    return ⟨← withDefault .zero (Span.ofJson? n) span, ← required (Stmt.listOfJson? n) stmts⟩

/-- A statement. -/
def Stmt.ofJson? : Nat → Json → Option Stmt
  | 0, _ => none
  | n + 1, j => do
    let (tag, body) ← j.single?
    match tag with
    | "break" => return .breakLoop (← Span.ofJson? n body)
    | "continue" => return .continueLoop (← Span.ofJson? n body)
    | "expr" => return .expr (← Expr.ofJson? n body)
    | "block" => return .block (← Block.ofJson? n body)
    | tag => Stmt.ofRecord? n tag body

/-- A statement whose payload is a record. -/
def Stmt.ofRecord? : Nat → String → Json → Option Stmt
  | 0, _, _ => none
  | n + 1, tag, j =>
    match tag with
    | "let" => do
      let [span, name, ty, mutable, init] ← fields? ["span", "name", "ty", "mutable", "init"] j
        | none
      return .letVar (← withDefault .zero (Span.ofJson? n) span) (← required Json.string? name)
        (← optional (Ty.ofJson? n) ty) (← withDefault false Json.bool? mutable)
        (← optional (Expr.ofJson? n) init)
    | "assign" => do
      let [span, target, value] ← fields? ["span", "target", "value"] j | none
      return .assign (← withDefault .zero (Span.ofJson? n) span)
        (← required (Expr.ofJson? n) target) (← required (Expr.ofJson? n) value)
    | "return" => do
      let [span, value] ← fields? ["span", "value"] j | none
      return .ret (← withDefault .zero (Span.ofJson? n) span) (← optional (Expr.ofJson? n) value)
    | "if" => do
      let [span, cond, thenBlock, elseBlock] ←
        fields? ["span", "cond", "then_block", "else_block"] j | none
      return .ifElse (← withDefault .zero (Span.ofJson? n) span) (← required (Expr.ofJson? n) cond)
        (← required (Block.ofJson? n) thenBlock) (← optional (Block.ofJson? n) elseBlock)
    | "while" => do
      let [span, cond, body] ← fields? ["span", "cond", "body"] j | none
      return .whileLoop (← withDefault .zero (Span.ofJson? n) span)
        (← required (Expr.ofJson? n) cond) (← required (Block.ofJson? n) body)
    | "for_each" => do
      let [span, var, iterable, body] ← fields? ["span", "var", "iterable", "body"] j | none
      return .forEach (← withDefault .zero (Span.ofJson? n) span) (← required Json.string? var)
        (← required (Expr.ofJson? n) iterable) (← required (Block.ofJson? n) body)
    | "switch" => do
      let [span, scrutinee, cases] ← fields? ["span", "scrutinee", "cases"] j | none
      return .switch (← withDefault .zero (Span.ofJson? n) span)
        (← required (Expr.ofJson? n) scrutinee) (← required (SwitchCase.listOfJson? n) cases)
    | _ => none

/-- Statements. -/
def Stmt.listOfJson? : Nat → Json → Option (List Stmt)
  | n + 1, .array items => items.mapM (Stmt.ofJson? n)
  | _, _ => none

/-- A case of a switch. -/
def SwitchCase.ofJson? : Nat → Json → Option SwitchCase
  | 0, _ => none
  | n + 1, j => do
    let [span, value, body, fallthrough] ← fields? ["span", "value", "body", "fallthrough"] j
      | none
    return ⟨← withDefault .zero (Span.ofJson? n) span, ← optional (Expr.ofJson? n) value,
      ← required (Stmt.listOfJson? n) body, ← withDefault false Json.bool? fallthrough⟩

/-- The cases of a switch. -/
def SwitchCase.listOfJson? : Nat → Json → Option (List SwitchCase)
  | n + 1, .array items => items.mapM (SwitchCase.ofJson? n)
  | _, _ => none

end

/-- A field. -/
def FieldDecl.ofJson? : Nat → Json → Option FieldDecl
  | 0, _ => none
  | n + 1, j => do
    let [name, ty] ← fields? ["name", "ty"] j | none
    return ⟨← required Json.string? name, ← required (Ty.ofJson? n) ty⟩

/-- Derive tags. -/
def Json.stringsAt? (n : Nat) (j : Json) : Option (List String) :=
  listOf (fun _ => Json.string?) n j

/-- An aggregate. -/
def StructDecl.ofJson? : Nat → Json → Option StructDecl
  | 0, _ => none
  | n + 1, j => do
    let [span, name, fields, derives] ← fields? ["span", "name", "fields", "derives"] j | none
    return ⟨← withDefault .zero (Span.ofJson? n) span, ← required Json.string? name,
      ← required (listOf FieldDecl.ofJson? n) fields, ← withDefault [] (Json.stringsAt? n) derives⟩

/-- The shape of a variant. -/
def VariantShape.ofJson? : Nat → Json → Option VariantShape
  | _, .string "unit" => some .unit
  | _ + 1, .object [("unit", .null)] => some .unit
  | n + 1, .object [("tuple", j)] => (listOf Ty.ofJson? n j).map .tuple
  | n + 1, .object [("struct", j)] => (listOf FieldDecl.ofJson? n j).map .struct
  | _, _ => none

/-- A variant. -/
def VariantDecl.ofJson? : Nat → Json → Option VariantDecl
  | 0, _ => none
  | n + 1, j => do
    let [name, shape] ← fields? ["name", "shape"] j | none
    return ⟨← required Json.string? name, ← withDefault .unit (VariantShape.ofJson? n) shape⟩

/-- An enum. -/
def EnumDecl.ofJson? : Nat → Json → Option EnumDecl
  | 0, _ => none
  | n + 1, j => do
    let [span, name, variants, derives] ← fields? ["span", "name", "variants", "derives"] j | none
    return ⟨← withDefault .zero (Span.ofJson? n) span, ← required Json.string? name,
      ← required (listOf VariantDecl.ofJson? n) variants,
      ← withDefault [] (Json.stringsAt? n) derives⟩

/-- An alias. -/
def AliasDecl.ofJson? : Nat → Json → Option AliasDecl
  | 0, _ => none
  | n + 1, j => do
    let [span, name, target] ← fields? ["span", "name", "target"] j | none
    return ⟨← withDefault .zero (Span.ofJson? n) span, ← required Json.string? name,
      ← required (Ty.ofJson? n) target⟩

/-- A parameter. -/
def Param.ofJson? : Nat → Json → Option Param
  | 0, _ => none
  | n + 1, j => do
    let [name, ty, mutable] ← fields? ["name", "ty", "mutable"] j | none
    return ⟨← required Json.string? name, ← required (Ty.ofJson? n) ty,
      ← withDefault false Json.bool? mutable⟩

/-- A function. -/
def FunctionDecl.ofJson? : Nat → Json → Option FunctionDecl
  | 0, _ => none
  | n + 1, j => do
    let [span, name, params, ret, body, isPublic, receiver] ←
      fields? ["span", "name", "params", "ret", "body", "public", "receiver"] j | none
    return ⟨← withDefault .zero (Span.ofJson? n) span, ← required Json.string? name,
      ← required (listOf Param.ofJson? n) params, ← required (Ty.ofJson? n) ret,
      ← required (Block.ofJson? n) body, ← withDefault false Json.bool? isPublic,
      ← optional (Receiver.ofJson? n) receiver⟩

/-- A method block. -/
def ImplBlock.ofJson? : Nat → Json → Option ImplBlock
  | 0, _ => none
  | n + 1, j => do
    let [span, target, methods] ← fields? ["span", "target", "methods"] j | none
    return ⟨← withDefault .zero (Span.ofJson? n) span, ← required Json.string? target,
      ← required (listOf FunctionDecl.ofJson? n) methods⟩

/-- A declaration. -/
def Decl.ofJson? : Nat → Json → Option Decl
  | 0, _ => none
  | n + 1, j => do
    let (tag, body) ← j.single?
    match tag with
    | "struct" => return .struct (← StructDecl.ofJson? n body)
    | "enum" => return .enum (← EnumDecl.ofJson? n body)
    | "alias" => return .alias (← AliasDecl.ofJson? n body)
    | "function" => return .function (← FunctionDecl.ofJson? n body)
    | "impl" => return .impl (← ImplBlock.ofJson? n body)
    | _ => none

/-- A program. -/
def Program.ofJson? : Nat → Json → Option Program
  | 0, _ => none
  | n + 1, j => do
    let [decls] ← fields? ["decls"] j | none
    return ⟨← required (listOf Decl.ofJson? n) decls⟩

/-- The program a JSON text denotes. -/
def Program.parse? (text : String) : Option Program := do
  Program.ofJson? Json.nestingLimit (← Json.parse? text)

end Oxidize
