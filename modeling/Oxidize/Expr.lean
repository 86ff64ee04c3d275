import Oxidize.Number.Binary64
import Oxidize.Ty

/-!
# Expressions

An expression is a kind, the source range it came from, and the type annotation that type
resolution fills in. Method calls and field accesses also record the type of their object.
-/

namespace Oxidize

/-- A range of bytes in the source text. -/
structure Span where
  offset : Nat
  len : Nat
deriving DecidableEq, Repr

namespace Span

/-- The range of what has no place in the source. -/
def zero : Span := ⟨0, 0⟩

/-- The range from one offset up to another. -/
def between (start stop : Nat) : Span :=
  ⟨start, stop - start⟩

end Span

/-- A literal. -/
inductive Literal where
  | number (x : Binary64)
  | bool (b : Bool)
  | text (s : String)
  | null
deriving DecidableEq

/-- A unary operator. -/
inductive UnaryOp where
  | neg
  | not
deriving DecidableEq, Repr

/-- A binary operator. -/
inductive BinOp where
  | add | sub | mul | div | rem
  | eq | ne | lt | gt | le | ge
  | and | or
deriving DecidableEq, Repr

namespace BinOp

/-- Comparisons give a truth value. -/
def isComparison : BinOp → Bool
  | .eq | .ne | .lt | .gt | .le | .ge => true
  | _ => false

/-- Conjunction and disjunction. -/
def isLogical : BinOp → Bool
  | .and | .or => true
  | _ => false

/-- The operators of arithmetic; addition also joins text. -/
def isArithmetic : BinOp → Bool
  | .add | .sub | .mul | .div | .rem => true
  | _ => false

/-- The spelling of the operator. -/
def symbol : BinOp → String
  | .add => "+"
  | .sub => "-"
  | .mul => "*"
  | .div => "/"
  | .rem => "%"
  | .eq => "=="
  | .ne => "!="
  | .lt => "<"
  | .gt => ">"
  | .le => "<="
  | .ge => ">="
  | .and => "&&"
  | .or => "||"

/-- Binding strength; a higher one binds tighter. -/
def precedence : BinOp → Nat
  | .or => 1
  | .and => 2
  | .eq | .ne | .lt | .gt | .le | .ge => 3
  | .add | .sub => 4
  | .mul | .div | .rem => 5

end BinOp

/-- The declaration an aggregate literal builds a value of, `pending` until the type that governs
the literal is known. -/
inductive AggregateTarget where
  | pending
  | named (name : String)
deriving DecidableEq, Repr

mutual

/-- An expression. -/
structure Expr where
  span : Span
  kind : ExprKind
  ty : Option Ty

/-- What an expression does. The `ns` of a method call is the tag of a known namespace. -/
inductive ExprKind where
  | literal (value : Literal)
  | ident (name : String)
  | unary (op : UnaryOp) (expr : Expr)
  | binary (op : BinOp) (left right : Expr)
  | call (callee : String) (args : List Expr)
  | methodCall (object : Expr) (method : String) (ns : Option String) (args : List Expr)
      (objectTy : Option Ty)
  | index (object index : Expr)
  | field (object : Expr) (field : String) (objectTy : Option Ty)
  | array (items : List Expr)
  | aggregate (target : AggregateTarget) (fields : List FieldInit)
  | tuple (items : List Expr)
  | variant (enumName variant : String) (data : Option (List Expr))
  | ternary (cond thenExpr elseExpr : Expr)
  | cast (expr : Expr) (ty : Ty)

/-- The value given to one field of an aggregate literal. -/
structure FieldInit where
  name : String
  value : Expr

end

namespace Expr

/-- An expression without a place in the source and without an annotation. -/
def ofKind (kind : ExprKind) : Expr :=
  ⟨.zero, kind, none⟩

/-- The name of an identifier. -/
def ident? (e : Expr) : Option String :=
  match e.kind with
  | .ident name => some name
  | _ => none

/-- The variable at the root of a place: `a` in `a.b[0].c`. -/
def root? : Expr → Option String
  | ⟨_, .ident name, _⟩ => some name
  | ⟨_, .field object _ _, _⟩ | ⟨_, .index object _, _⟩ => object.root?
  | _ => none

/-- A text literal. -/
def isTextLiteral (e : Expr) : Bool :=
  match e.kind with
  | .literal (.text _) => true
  | _ => false

/-- A number literal without a fractional part. -/
def isIntegerLiteral (e : Expr) : Bool :=
  match e.kind with
  | .literal (.number x) => x.isIntegral
  | _ => false

/-- The literal `null`. -/
def isNull (e : Expr) : Bool :=
  match e.kind with
  | .literal .null => true
  | _ => false

/-- Text as far as can be seen: a text literal, or annotated as text through references. -/
def isKnownText (e : Expr) : Bool :=
  e.isTextLiteral || e.ty.any (·.stripRefs.isText)

/-- The annotation, `void` without one. -/
def tyOrVoid (e : Expr) : Ty :=
  e.ty.getD .void

end Expr

/-- Addition joins its operands as text when either of them is known to be text. -/
def BinOp.joinsText (op : BinOp) (left right : Expr) : Bool :=
  op == .add && (left.isKnownText || right.isKnownText)

end Oxidize
