import Oxidize.Json.Basic
import Oxidize.Program

/-!
# Programs as JSON

`Program.toJson` writes a program as a JSON value with every field present. A choice without a
payload is its bare name, a choice with a payload is an object whose only member is named for it.
-/

namespace Oxidize

/-- The written name of a primitive. -/
def Prim.tag : Prim → String
  | .i8 => "i8"
  | .i16 => "i16"
  | .i32 => "i32"
  | .i64 => "i64"
  | .u8 => "u8"
  | .u16 => "u16"
  | .u32 => "u32"
  | .u64 => "u64"
  | .usize => "usize"
  | .f32 => "f32"
  | .f64 => "f64"
  | .bool => "bool"
  | .void => "void"
  | .ownedText => "owned_text"
  | .viewText => "view_text"

/-- The written name of a unary operator. -/
def UnaryOp.tag : UnaryOp → String
  | .neg => "neg"
  | .not => "not"

/-- The written name of a binary operator. -/
def BinOp.tag : BinOp → String
  | .add => "add"
  | .sub => "sub"
  | .mul => "mul"
  | .div => "div"
  | .rem => "rem"
  | .eq => "eq"
  | .ne => "ne"
  | .lt => "lt"
  | .gt => "gt"
  | .le => "le"
  | .ge => "ge"
  | .and => "and"
  | .or => "or"

/-- The written name of a receiver. -/
def Receiver.tag : Receiver → String
  | .byRef => "ref"
  | .byMut => "mut"
  | .byValue => "value"

/-- A choice with a payload. -/
def Json.over (tag : String) (payload : Json) : Json :=
  .object [(tag, payload)]

/-- A range as JSON. -/
def Span.toJson (s : Span) : Json :=
  .object [("offset", .nat s.offset), ("len", .nat s.len)]

mutual

/-- A type as JSON. -/
def Ty.toJson : Ty → Json
  | .prim p => .over "primitive" (.string p.tag)
  | .seq elem => .over "sequence" elem.toJson
  | .aggregate name => .over "aggregate" (.string name)
  | .enum name => .over "enum" (.string name)
  | .tuple elems => .over "tuple" (.array (Ty.toJsonList elems))
  | .optional inner => .over "optional" inner.toJson
  | .ref inner mutable =>
    .over "reference" (.object [("inner", inner.toJson), ("mutable", .bool mutable)])
  | .fn params ret =>
    .over "function" (.object [("params", .array (Ty.toJsonList params)), ("ret", ret.toJson)])

/-- Types as JSON. -/
def Ty.toJsonList : List Ty → List Json
  | [] => []
  | t :: ts => t.toJson :: Ty.toJsonList ts

end

/-- A literal as JSON. -/
def Literal.toJson : Literal → Json
  | .number x => .over "number" (.ofNumber x)
  | .bool b => .over "bool" (.bool b)
  | .text s => .over "text" (.string s)
  | .null => .string "null"

/-- The target of an aggregate literal as JSON. -/
def AggregateTarget.toJson : AggregateTarget → Json
  | .pending => .string "pending"
  | .named name => .over "named" (.string name)

mutual

/-- An expression as JSON. -/
def Expr.toJson : Expr → Json
  | ⟨span, kind, ty⟩ =>
    .object [("span", span.toJson), ("kind", kind.toJson), ("ty", .ofOption Ty.toJson ty)]

/-- The kind of an expression as JSON. -/
def ExprKind.toJson : ExprKind → Json
  | .literal value => .over "literal" value.toJson
  | .ident name => .over "ident" (.string name)
  | .unary op expr => .over "unary" (.object [("op", .string op.tag), ("expr", expr.toJson)])
  | .binary op left right =>
    .over "binary"
      (.object [("op", .string op.tag), ("left", left.toJson), ("right", right.toJson)])
  | .call callee args =>
    .over "call" (.object [("callee", .string callee), ("args", .array (Expr.toJsonList args))])
  | .methodCall object method ns args objectTy =>
    .over "method_call"
      (.object [("object", object.toJson), ("method", .string method),
        ("namespace", .ofOption .string ns), ("args", .array (Expr.toJsonList args)),
        ("object_ty", .ofOption Ty.toJson objectTy)])
  | .index object index =>
    .over "index" (.object [("object", object.toJson), ("index", index.toJson)])
  | .field object field objectTy =>
    .over "field"
      (.object [("object", object.toJson), ("field", .string field),
        ("object_ty", .ofOption Ty.toJson objectTy)])
  | .array items => .over "array" (.array (Expr.toJsonList items))
  | .aggregate target fields =>
    .over "aggregate"
      (.object [("target", target.toJson), ("fields", .array (FieldInit.toJsonList fields))])
  | .tuple items => .over "tuple" (.array (Expr.toJsonList items))
  | .variant enumName variant data =>
    .over "variant"
      (.object [("enum_name", .string enumName), ("variant", .string variant),
        ("data", Expr.toJsonOption data)])
  | .ternary cond thenExpr elseExpr =>
    .over "ternary"
      (.object [("cond", cond.toJson), ("then_expr", thenExpr.toJson),
        ("else_expr", elseExpr.toJson)])
  | .cast expr ty => .over "cast" (.object [("expr", expr.toJson), ("ty", ty.toJson)])

/-- Expressions as JSON. -/
def Expr.toJsonList : List Expr → List Json
  | [] => []
  | e :: es => e.toJson :: Expr.toJsonList es

/-- Optional expressions as JSON. -/
def Expr.toJsonOption : Option (List Expr) → Json
  | none => .null
  | some es => .array (Expr.toJsonList es)

/-- Field values as JSON. -/
def FieldInit.toJsonList : List FieldInit → List Json
  | [] => []
  | ⟨name, value⟩ :: fields =>
    .object [("name", .string name), ("value", value.toJson)] :: FieldInit.toJsonList fields

end

mutual

/-- A block as JSON. -/
def Block.toJson : Block → Json
  | ⟨span, stmts⟩ => .object [("span", span.toJson), ("stmts", .array (Stmt.toJsonList stmts))]

/-- A statement as JSON. -/
def Stmt.toJson : Stmt → Json
  | .letVar span name ty mutable init =>
    .over "let"
      (.object [("span", span.toJson), ("name", .string name), ("ty", .ofOption Ty.toJson ty),
        ("mutable", .bool mutable), ("init", .ofOption Expr.toJson init)])
  | .assign span target value =>
    .over "assign"
      (.object [("span", span.toJson), ("target", target.toJson), ("value", value.toJson)])
  | .ret span value =>
    .over "return" (.object [("span", span.toJson), ("value", .ofOption Expr.toJson value)])
  | .ifElse span cond thenBlock elseBlock =>
    .over "if"
      (.object [("span", span.toJson), ("cond", cond.toJson), ("then_block", thenBlock.toJson),
        ("else_block", Block.toJsonOption elseBlock)])
  | .whileLoop span cond body =>
    .over "while"
      (.object [("span", span.toJson), ("cond", cond.toJson), ("body", body.toJson)])
  | .forEach span var iterable body =>
    .over "for_each"
      (.object [("span", span.toJson), ("var", .string var), ("iterable", iterable.toJson),
        ("body", body.toJson)])
  | .switch span scrutinee cases =>
    .over "switch"
      (.object [("span", span.toJson), ("scrutinee", scrutinee.toJson),
        ("cases", .array (SwitchCase.toJsonList cases))])
  | .breakLoop span => .over "break" span.toJson
  | .continueLoop span => .over "continue" span.toJson
  | .expr e => .over "expr" e.toJson
  | .block b => .over "block" b.toJson

/-- Statements as JSON. -/
def Stmt.toJsonList : List Stmt → List Json
  | [] => []
  | s :: ss => s.toJson :: Stmt.toJsonList ss

/-- An optional block as JSON. -/
def Block.toJsonOption : Option Block → Json
  | none => .null
  | some b => b.toJson

/-- Cases as JSON. -/
def SwitchCase.toJsonList : List SwitchCase → List Json
  | [] => []
  | ⟨span, value, body, fallthrough⟩ :: cases =>
    .object [("span", span.toJson), ("value", .ofOption Expr.toJson value),
      ("body", .array (Stmt.toJsonList body)), ("fallthrough", .bool fallthrough)] ::
      SwitchCase.toJsonList cases

end

/-- A field as JSON. -/
def FieldDecl.toJson (f : FieldDecl) : Json :=
  .object [("name", .string f.name), ("ty", f.ty.toJson)]

/-- Derive tags as JSON. -/
def Json.ofStrings (tags : List String) : Json :=
  .array (tags.map .string)

/-- An aggregate as JSON. -/
def StructDecl.toJson (s : StructDecl) : Json :=
  .object [("span", s.span.toJson), ("name", .string s.name),
    ("fields", .array (s.fields.map FieldDecl.toJson)), ("derives", .ofStrings s.derives)]

/-- The shape of a variant as JSON. -/
def VariantShape.toJson : VariantShape → Json
  | .unit => .string "unit"
  | .tuple tys => .over "tuple" (.array (tys.map Ty.toJson))
  | .struct fields => .over "struct" (.array (fields.map FieldDecl.toJson))

/-- A variant as JSON. -/
def VariantDecl.toJson (v : VariantDecl) : Json :=
  .object [("name", .string v.name), ("shape", v.shape.toJson)]

/-- An enum as JSON. -/
def EnumDecl.toJson (e : EnumDecl) : Json :=
  .object [("span", e.span.toJson), ("name", .string e.name),
    ("variants", .array (e.variants.map VariantDecl.toJson)), ("derives", .ofStrings e.derives)]

/-- An alias as JSON. -/
def AliasDecl.toJson (a : AliasDecl) : Json :=
  .object [("span", a.span.toJson), ("name", .string a.name), ("target", a.target.toJson)]

/-- A parameter as JSON. -/
def Param.toJson (p : Param) : Json :=
  .object [("name", .string p.name), ("ty", p.ty.toJson), ("mutable", .bool p.mutable)]

/-- A receiver as JSON. -/
def Receiver.toJson (r : Receiver) : Json :=
  .string r.tag

/-- A function as JSON. -/
def FunctionDecl.toJson (f : FunctionDecl) : Json :=
  .object [("span", f.span.toJson), ("name", .string f.name),
    ("params", .array (f.params.map Param.toJson)), ("ret", f.ret.toJson),
    ("body", f.body.toJson), ("public", .bool f.isPublic),
    ("receiver", .ofOption Receiver.toJson f.receiver)]

/-- A method block as JSON. -/
def ImplBlock.toJson (b : ImplBlock) : Json :=
  .object [("span", b.span.toJson), ("target", .string b.target),
    ("methods", .array (b.methods.map FunctionDecl.toJson))]

/-- A declaration as JSON. -/
def Decl.toJson : Decl → Json
  | .struct s => .over "struct" s.toJson
  | .enum e => .over "enum" e.toJson
  | .alias a => .over "alias" a.toJson
  | .function f => .over "function" f.toJson
  | .impl b => .over "impl" b.toJson

/-- A program as JSON. -/
def Program.toJson (p : Program) : Json :=
  .object [("decls", .array (p.decls.map Decl.toJson))]

end Oxidize
