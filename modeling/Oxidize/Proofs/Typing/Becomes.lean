import Mathlib.Data.List.Forall2
import Mathlib.Data.Option.Defs
import Oxidize.Proofs.Usage.Walk
import Oxidize.Typing.Resolve

/-!
# What resolution may make of a program

`Program.Becomes` follows the syntax rule by rule: an annotation is written into every expression,
and the type of the object into method calls and field accesses; a pending literal may find an
aggregate of the program; an access through a name that no variable hides becomes a variant where
the name is that of an enum, and is tagged where it is that of a namespace. Everything else has to
stay. In particular the leaves of the text, that is its ranges, names, literals, operators and
written types, are the same before and after and in the same order, with one exception: a variant has
no place for the range of its enum's name, so the name before the dot of a rewritten access loses its
own range (`Program.Becomes.leaves`).
-/

namespace Oxidize

/-! ## What an expression may become -/

/-- The expression is a name, and none of the given variables hides it. -/
def Expr.Names (locals : List String) (e : Expr) (name : String) : Prop :=
  e.ident? = some name ∧ name ∉ locals

/-- What the target of a literal may become. -/
inductive AggregateTarget.Becomes (r : Registry) : AggregateTarget → AggregateTarget → Prop
  | kept (target : AggregateTarget) : Becomes r target target
  | found {name : String} (hstruct : r.isStruct name = true) : Becomes r .pending (.named name)

mutual

/-- What an expression may become where the given variables are in scope. -/
inductive Expr.Becomes (r : Registry) (locals : List String) : Expr → Expr → Prop
  | annotated {span : Span} {kind kind' : ExprKind} {ty : Option Ty} {ty' : Ty}
      (hkind : kind.Becomes r locals kind') :
      Expr.Becomes r locals ⟨span, kind, ty⟩ ⟨span, kind', some ty'⟩

/-- What the kind of an expression may become. -/
inductive ExprKind.Becomes (r : Registry) (locals : List String) : ExprKind → ExprKind → Prop
  | literal {value : Literal} : ExprKind.Becomes r locals (.literal value) (.literal value)
  | ident {name : String} : ExprKind.Becomes r locals (.ident name) (.ident name)
  | unary {op : UnaryOp} {expr expr' : Expr} (hexpr : expr.Becomes r locals expr') :
      ExprKind.Becomes r locals (.unary op expr) (.unary op expr')
  | binary {op : BinOp} {left left' right right' : Expr} (hleft : left.Becomes r locals left')
      (hright : right.Becomes r locals right') :
      ExprKind.Becomes r locals (.binary op left right) (.binary op left' right')
  | call {callee : String} {args args' : List Expr}
      (hargs : List.Forall₂ (Expr.Becomes r locals) args args') :
      ExprKind.Becomes r locals (.call callee args) (.call callee args')
  /-- A call on the name of an enum builds a variant. -/
  | enumCall {object : Expr} {name method : String} {args args' : List Expr} {ty : Option Ty}
      (hname : object.Names locals name) (henum : r.isEnum name = true)
      (hargs : List.Forall₂ (Expr.Becomes r locals) args args') :
      ExprKind.Becomes r locals (.methodCall object method none args ty)
        (.variant name method (some args'))
  /-- A call on the name of a namespace is tagged with that name. -/
  | namespaceCall {object : Expr} {ns : Namespace} {method : String} {args args' : List Expr}
      {ty : Option Ty} (hname : object.Names locals ns.ident) (henum : r.isEnum ns.ident = false)
      (hargs : List.Forall₂ (Expr.Becomes r locals) args args') :
      ExprKind.Becomes r locals (.methodCall object method none args ty)
        (.methodCall object method (some ns.ident) args' ty)
  /-- A call on anything else stays without a tag. -/
  | valueCall {object object' : Expr} {method : String} {args args' : List Expr} {ty : Option Ty}
      {ty' : Ty} (hother : ∀ name, object.Names locals name →
        r.isEnum name = false ∧ Namespace.ofIdent? name = none)
      (hobject : object.Becomes r locals object')
      (hargs : List.Forall₂ (Expr.Becomes r locals) args args') :
      ExprKind.Becomes r locals (.methodCall object method none args ty)
        (.methodCall object' method none args' (some ty'))
  /-- The tag of a namespace stays, and the object with it. -/
  | taggedCall {object : Expr} {ns : Namespace} {method : String} {args args' : List Expr}
      {ty : Option Ty} (hargs : List.Forall₂ (Expr.Becomes r locals) args args') :
      ExprKind.Becomes r locals (.methodCall object method (some ns.ident) args ty)
        (.methodCall object method (some ns.ident) args' ty)
  /-- A tag that is none of a namespace stays as well, on a call that is one on a value. -/
  | strayCall {object object' : Expr} {tag method : String} {args args' : List Expr}
      {ty : Option Ty} {ty' : Ty} (htag : Namespace.ofIdent? tag = none)
      (hobject : object.Becomes r locals object')
      (hargs : List.Forall₂ (Expr.Becomes r locals) args args') :
      ExprKind.Becomes r locals (.methodCall object method (some tag) args ty)
        (.methodCall object' method (some tag) args' (some ty'))
  | index {object object' index index' : Expr} (hobject : object.Becomes r locals object')
      (hindex : index.Becomes r locals index') :
      ExprKind.Becomes r locals (.index object index) (.index object' index')
  /-- A member of the name of an enum is a variant. -/
  | enumMember {object : Expr} {name field : String} {ty : Option Ty}
      (hname : object.Names locals name) (henum : r.isEnum name = true) :
      ExprKind.Becomes r locals (.field object field ty) (.variant name field none)
  /-- A constant of a namespace stays as it is written. -/
  | constant {object : Expr} {ns : Namespace} {field : String} {ty : Option Ty}
      (hname : object.Names locals ns.ident) (henum : r.isEnum ns.ident = false)
      (hconst : (ns.constant? field).isSome = true) :
      ExprKind.Becomes r locals (.field object field ty) (.field object field ty)
  /-- A member of anything else stays a field. -/
  | field {object object' : Expr} {field : String} {ty : Option Ty} {ty' : Ty}
      (hother : ∀ name, object.Names locals name → r.isEnum name = false ∧
        (Namespace.ofIdent? name).bind (·.constant? field) = none)
      (hobject : object.Becomes r locals object') :
      ExprKind.Becomes r locals (.field object field ty) (.field object' field (some ty'))
  | array {items items' : List Expr} (hitems : List.Forall₂ (Expr.Becomes r locals) items items') :
      ExprKind.Becomes r locals (.array items) (.array items')
  | aggregate {target target' : AggregateTarget} {fields fields' : List FieldInit}
      (htarget : target.Becomes r target')
      (hfields : List.Forall₂ (FieldInit.Becomes r locals) fields fields') :
      ExprKind.Becomes r locals (.aggregate target fields) (.aggregate target' fields')
  | tuple {items items' : List Expr} (hitems : List.Forall₂ (Expr.Becomes r locals) items items') :
      ExprKind.Becomes r locals (.tuple items) (.tuple items')
  | variant {enumName variant : String} {data data' : Option (List Expr)}
      (hdata : Option.Rel (List.Forall₂ (Expr.Becomes r locals)) data data') :
      ExprKind.Becomes r locals (.variant enumName variant data) (.variant enumName variant data')
  | ternary {cond cond' thenExpr thenExpr' elseExpr elseExpr' : Expr}
      (hcond : cond.Becomes r locals cond') (hthen : thenExpr.Becomes r locals thenExpr')
      (helse : elseExpr.Becomes r locals elseExpr') :
      ExprKind.Becomes r locals (.ternary cond thenExpr elseExpr)
        (.ternary cond' thenExpr' elseExpr')
  | cast {expr expr' : Expr} {ty : Ty} (hexpr : expr.Becomes r locals expr') :
      ExprKind.Becomes r locals (.cast expr ty) (.cast expr' ty)

/-- What a field of an aggregate literal may become. -/
inductive FieldInit.Becomes (r : Registry) (locals : List String) : FieldInit → FieldInit → Prop
  | valued {name : String} {value value' : Expr} (hvalue : value.Becomes r locals value') :
      FieldInit.Becomes r locals ⟨name, value⟩ ⟨name, value'⟩

end

/-! ## What a statement may become -/

mutual

/-- What a statement may become where the given variables are in scope. -/
inductive Stmt.Becomes (r : Registry) : List String → Stmt → Stmt → Prop
  | letVar {locals : List String} {span : Span} {name : String} {ty : Option Ty} {mutable : Bool}
      {init init' : Option Expr} (hinit : Option.Rel (Expr.Becomes r locals) init init') :
      Stmt.Becomes r locals (.letVar span name ty mutable init) (.letVar span name ty mutable init')
  | assign {locals : List String} {span : Span} {target target' value value' : Expr}
      (htarget : target.Becomes r locals target') (hvalue : value.Becomes r locals value') :
      Stmt.Becomes r locals (.assign span target value) (.assign span target' value')
  | ret {locals : List String} {span : Span} {value value' : Option Expr}
      (hvalue : Option.Rel (Expr.Becomes r locals) value value') :
      Stmt.Becomes r locals (.ret span value) (.ret span value')
  | ifElse {locals : List String} {span : Span} {cond cond' : Expr} {thenBlock thenBlock' : Block}
      {elseBlock elseBlock' : Option Block} (hcond : cond.Becomes r locals cond')
      (hthen : Block.Becomes r locals thenBlock thenBlock')
      (helse : Block.Becomes? r locals elseBlock elseBlock') :
      Stmt.Becomes r locals (.ifElse span cond thenBlock elseBlock)
        (.ifElse span cond' thenBlock' elseBlock')
  | whileLoop {locals : List String} {span : Span} {cond cond' : Expr} {body body' : Block}
      (hcond : cond.Becomes r locals cond') (hbody : Block.Becomes r locals body body') :
      Stmt.Becomes r locals (.whileLoop span cond body) (.whileLoop span cond' body')
  | forEach {locals : List String} {span : Span} {var : String} {iterable iterable' : Expr}
      {body body' : Block} (hiterable : iterable.Becomes r locals iterable')
      (hbody : Block.Becomes r (var :: locals) body body') :
      Stmt.Becomes r locals (.forEach span var iterable body) (.forEach span var iterable' body')
  | switch {locals : List String} {span : Span} {scrutinee scrutinee' : Expr}
      {cases cases' : List SwitchCase} (hscrutinee : scrutinee.Becomes r locals scrutinee')
      (hcases : SwitchCase.BecomesList r locals cases cases') :
      Stmt.Becomes r locals (.switch span scrutinee cases) (.switch span scrutinee' cases')
  | breakLoop {locals : List String} {span : Span} :
      Stmt.Becomes r locals (.breakLoop span) (.breakLoop span)
  | continueLoop {locals : List String} {span : Span} :
      Stmt.Becomes r locals (.continueLoop span) (.continueLoop span)
  | expr {locals : List String} {e e' : Expr} (he : e.Becomes r locals e') :
      Stmt.Becomes r locals (.expr e) (.expr e')
  | block {locals : List String} {body body' : Block} (hbody : Block.Becomes r locals body body') :
      Stmt.Becomes r locals (.block body) (.block body')

/-- What statements may become. Those after a declaration see its variable. -/
inductive Stmt.BecomesList (r : Registry) : List String → List Stmt → List Stmt → Prop
  | nil {locals : List String} : Stmt.BecomesList r locals [] []
  | cons {locals : List String} {s s' : Stmt} {ss ss' : List Stmt} (hs : Stmt.Becomes r locals s s')
      (hss : Stmt.BecomesList r (s.declares ++ locals) ss ss') :
      Stmt.BecomesList r locals (s :: ss) (s' :: ss')

/-- What a block may become. -/
inductive Block.Becomes (r : Registry) : List String → Block → Block → Prop
  | stmts {locals : List String} {span : Span} {stmts stmts' : List Stmt}
      (hstmts : Stmt.BecomesList r locals stmts stmts') :
      Block.Becomes r locals ⟨span, stmts⟩ ⟨span, stmts'⟩

/-- What an optional block may become. -/
inductive Block.Becomes? (r : Registry) : List String → Option Block → Option Block → Prop
  | none {locals : List String} : Block.Becomes? r locals none none
  | some {locals : List String} {body body' : Block} (hbody : Block.Becomes r locals body body') :
      Block.Becomes? r locals (some body) (some body')

/-- What the cases of a switch may become. -/
inductive SwitchCase.BecomesList (r : Registry) :
    List String → List SwitchCase → List SwitchCase → Prop
  | nil {locals : List String} : SwitchCase.BecomesList r locals [] []
  | cons {locals : List String} {span : Span} {value value' : Option Expr} {body body' : List Stmt}
      {fallthrough : Bool} {cases cases' : List SwitchCase}
      (hvalue : Option.Rel (Expr.Becomes r locals) value value')
      (hbody : Stmt.BecomesList r locals body body')
      (hcases : SwitchCase.BecomesList r locals cases cases') :
      SwitchCase.BecomesList r locals (⟨span, value, body, fallthrough⟩ :: cases)
        (⟨span, value', body', fallthrough⟩ :: cases')

end

/-! ## What a program may become -/

/-- The variables in scope at the start of a function: its parameters, and in a method block the
receiver. -/
def FunctionDecl.locals (owner : Option String) (f : FunctionDecl) : List String :=
  f.params.map (·.name) ++ (owner.map fun _ => receiverName).toList

/-- What a function may become: the statements of its body may change, and nothing else. -/
structure FunctionDecl.Becomes (r : Registry) (owner : Option String) (f f' : FunctionDecl) :
    Prop where
  header : f' = { f with body := ⟨f.body.span, f'.body.stmts⟩ }
  body : Stmt.BecomesList r (f.locals owner) f.body.stmts f'.body.stmts

/-- What a declaration may become. -/
inductive Decl.Becomes (r : Registry) : Decl → Decl → Prop
  | struct {s : StructDecl} : Decl.Becomes r (.struct s) (.struct s)
  | enum {e : EnumDecl} : Decl.Becomes r (.enum e) (.enum e)
  | synonym {a : AliasDecl} : Decl.Becomes r (.alias a) (.alias a)
  | function {f f' : FunctionDecl} (hf : f.Becomes r none f') :
      Decl.Becomes r (.function f) (.function f')
  | impl {b : ImplBlock} {methods : List FunctionDecl}
      (hmethods : List.Forall₂ (FunctionDecl.Becomes r (some b.target)) b.methods methods) :
      Decl.Becomes r (.impl b) (.impl { b with methods := methods })

/-- What a program may become. -/
def Program.Becomes (p p' : Program) : Prop :=
  List.Forall₂ (Decl.Becomes (.ofProgram p)) p.decls p'.decls

/-! ## The leaves of a text -/

/-- What stands in a program besides its structure. The owner of an access is a bare name before a
dot, with the range of that name. -/
inductive Leaf where
  | span (s : Span)
  | name (s : String)
  | owner (range : Span) (name : String)
  | literal (value : Literal)
  | unary (op : UnaryOp)
  | binary (op : BinOp)
  | ty (t : Ty)
  | flag (b : Bool)
deriving DecidableEq

/-- The range that a leaf holds. -/
def Leaf.range? : Leaf → Option Span
  | .span s | .owner s _ => some s
  | _ => none

/-- What a leaf may become. It stays, or it is the name of an enum before a dot and loses its own
range. -/
inductive Leaf.Becomes (r : Registry) : Leaf → Leaf → Prop
  | kept (leaf : Leaf) : Becomes r leaf leaf
  | unranged {range : Span} {name : String} (henum : r.isEnum name = true) :
      Becomes r (.owner range name) (.name name)

mutual

/-- The leaves of an expression, in order. -/
def Expr.leaves : Expr → List Leaf
  | ⟨span, kind, _⟩ => .span span :: kind.leaves

/-- The leaves of an expression of the given kind. -/
def ExprKind.leaves : ExprKind → List Leaf
  | .literal value => [.literal value]
  | .ident name => [.name name]
  | .unary op expr => .unary op :: expr.leaves
  | .binary op left right => left.leaves ++ .binary op :: right.leaves
  | .call callee args => .name callee :: Expr.leavesList args
  | .methodCall object method _ args _ =>
    (match object.ident? with
      | some name => [.owner object.span name]
      | none => object.leaves) ++ .name method :: Expr.leavesList args
  | .index object index => object.leaves ++ index.leaves
  | .field object field _ =>
    (match object.ident? with
      | some name => [.owner object.span name]
      | none => object.leaves) ++ [.name field]
  | .array items | .tuple items => Expr.leavesList items
  | .aggregate _ fields => FieldInit.leavesList fields
  | .variant enumName variant none => [.name enumName, .name variant]
  | .variant enumName variant (some data) =>
    .name enumName :: .name variant :: Expr.leavesList data
  | .ternary cond thenExpr elseExpr => cond.leaves ++ (thenExpr.leaves ++ elseExpr.leaves)
  | .cast expr ty => expr.leaves ++ [.ty ty]

/-- The leaves of expressions. -/
def Expr.leavesList : List Expr → List Leaf
  | [] => []
  | e :: es => e.leaves ++ Expr.leavesList es

/-- The leaves of the fields of an aggregate literal. -/
def FieldInit.leavesList : List FieldInit → List Leaf
  | [] => []
  | ⟨name, value⟩ :: fields => .name name :: (value.leaves ++ FieldInit.leavesList fields)

end

/-- The leaves of an optional expression. -/
def Expr.leaves? (e : Option Expr) : List Leaf :=
  e.elim [] Expr.leaves

mutual

/-- The leaves of a statement. -/
def Stmt.leaves : Stmt → List Leaf
  | .letVar span name ty mutable init =>
    .span span :: .flag mutable :: .name name :: (ty.toList.map .ty ++ Expr.leaves? init)
  | .assign span target value => .span span :: (target.leaves ++ value.leaves)
  | .ret span value => .span span :: Expr.leaves? value
  | .ifElse span cond thenBlock elseBlock =>
    .span span :: (cond.leaves ++ (thenBlock.leaves ++ Block.leaves? elseBlock))
  | .whileLoop span cond body => .span span :: (cond.leaves ++ body.leaves)
  | .forEach span var iterable body =>
    .span span :: .name var :: (iterable.leaves ++ body.leaves)
  | .switch span scrutinee cases =>
    .span span :: (scrutinee.leaves ++ SwitchCase.leavesList cases)
  | .breakLoop span | .continueLoop span => [.span span]
  | .expr e => e.leaves
  | .block body => body.leaves

/-- The leaves of statements. -/
def Stmt.leavesList : List Stmt → List Leaf
  | [] => []
  | s :: ss => s.leaves ++ Stmt.leavesList ss

/-- The leaves of a block. -/
def Block.leaves : Block → List Leaf
  | ⟨span, stmts⟩ => .span span :: Stmt.leavesList stmts

/-- The leaves of an optional block. -/
def Block.leaves? : Option Block → List Leaf
  | none => []
  | some body => body.leaves

/-- The leaves of the cases of a switch. -/
def SwitchCase.leavesList : List SwitchCase → List Leaf
  | [] => []
  | ⟨span, value, body, fallthrough⟩ :: cases =>
    .span span :: .flag fallthrough ::
      (Expr.leaves? value ++ (Stmt.leavesList body ++ SwitchCase.leavesList cases))

end

/-- The leaves of the bodies of a declaration. -/
def Decl.leaves : Decl → List Leaf
  | .function f => f.body.leaves
  | .impl b => b.methods.flatMap (·.body.leaves)
  | _ => []

/-- The leaves of all the bodies of a program, in order. -/
def Program.leaves (p : Program) : List Leaf :=
  p.decls.flatMap Decl.leaves

/-! ## What may change keeps its leaves -/

/-- The leaves of what a text may become, one by one. -/
abbrev LeavesBecome (r : Registry) : List Leaf → List Leaf → Prop :=
  List.Forall₂ (Leaf.Becomes r)

section

variable {r : Registry} {locals : List String}

/-- Leaves that stay as they are. -/
theorem LeavesBecome.refl (leaves : List Leaf) : LeavesBecome r leaves leaves :=
  List.forall₂_same.2 fun leaf _ => .kept leaf

/-- Two stretches of a text. -/
theorem LeavesBecome.append {a a' b b' : List Leaf} (h : LeavesBecome r a a')
    (h' : LeavesBecome r b b') : LeavesBecome r (a ++ b) (a' ++ b') :=
  List.rel_append h h'

/-- A leaf that stays stands before the rest. -/
theorem LeavesBecome.cons {a a' : List Leaf} (leaf : Leaf) (h : LeavesBecome r a a') :
    LeavesBecome r (leaf :: a) (leaf :: a') :=
  List.Forall₂.cons (.kept leaf) h

/-- A name stays that name, and nothing else becomes one. -/
theorem Expr.Becomes.ident?_eq {e e' : Expr} (h : e.Becomes r locals e') :
    e'.ident? = e.ident? := by
  cases h with
  | annotated hkind => cases hkind <;> rfl

/-- An expression stays at its place in the source. -/
theorem Expr.Becomes.span_eq {e e' : Expr} (h : e.Becomes r locals e') : e'.span = e.span := by
  cases h with
  | annotated hkind => rfl

/-- The object of an access that stays one. A bare name keeps its own range. -/
theorem Expr.Becomes.object_leaves {object object' : Expr} (h : object.Becomes r locals object')
    (hleaves : LeavesBecome r object.leaves object'.leaves) :
    LeavesBecome r
      (match object.ident? with
        | some name => [.owner object.span name]
        | none => object.leaves)
      (match object'.ident? with
        | some name => [.owner object'.span name]
        | none => object'.leaves) := by
  rw [h.ident?_eq, h.span_eq]
  cases object.ident? with
  | some name => exact .refl _
  | none => exact hleaves

mutual

/-- An expression keeps its leaves, the ranges of rewritten names apart. -/
theorem Expr.leaves_becomes : (e : Expr) → {e' : Expr} → e.Becomes r locals e' →
    LeavesBecome r e.leaves e'.leaves
  | ⟨span, kind, ty⟩, _, h => by
    cases h with
    | annotated hkind =>
      rw [Expr.leaves, Expr.leaves]
      exact .cons _ (kind.leaves_becomes hkind)
termination_by structural e => e

/-- The kind of an expression keeps its leaves. Only an access through the name of an enum loses
something, which is the range of that name. -/
theorem ExprKind.leaves_becomes : (k : ExprKind) → {k' : ExprKind} → k.Becomes r locals k' →
    LeavesBecome r k.leaves k'.leaves
  | .literal value, _, h | .ident value, _, h => by
    cases h
    exact .refl _
  | .unary op expr, _, h => by
    cases h with
    | unary hexpr =>
      rw [ExprKind.leaves, ExprKind.leaves]
      exact .cons _ (expr.leaves_becomes hexpr)
  | .binary op left right, _, h => by
    cases h with
    | binary hleft hright =>
      rw [ExprKind.leaves, ExprKind.leaves]
      exact (left.leaves_becomes hleft).append (.cons _ (right.leaves_becomes hright))
  | .call callee args, _, h => by
    cases h with
    | call hargs =>
      rw [ExprKind.leaves, ExprKind.leaves]
      exact .cons _ (Expr.leavesList_becomes args hargs)
  | .methodCall object method ns args objectTy, _, h => by
    cases h with
    | enumCall hname henum hargs =>
      rw [ExprKind.leaves, ExprKind.leaves, hname.1]
      exact List.Forall₂.cons (.unranged henum)
        (LeavesBecome.cons _ (Expr.leavesList_becomes args hargs))
    | namespaceCall _ _ hargs | taggedCall hargs =>
      rw [ExprKind.leaves, ExprKind.leaves]
      exact (LeavesBecome.refl _).append (.cons _ (Expr.leavesList_becomes args hargs))
    | valueCall _ hobject hargs | strayCall _ hobject hargs =>
      rw [ExprKind.leaves, ExprKind.leaves]
      exact (hobject.object_leaves (object.leaves_becomes hobject)).append
        (.cons _ (Expr.leavesList_becomes args hargs))
  | .index object index, _, h => by
    cases h with
    | index hobject hindex =>
      rw [ExprKind.leaves, ExprKind.leaves]
      exact (object.leaves_becomes hobject).append (index.leaves_becomes hindex)
  | .field object field objectTy, _, h => by
    cases h with
    | enumMember hname henum =>
      rw [ExprKind.leaves, ExprKind.leaves, hname.1]
      exact List.Forall₂.cons (.unranged henum) (LeavesBecome.refl _)
    | constant => exact .refl _
    | field _ hobject =>
      rw [ExprKind.leaves, ExprKind.leaves]
      exact (hobject.object_leaves (object.leaves_becomes hobject)).append (.refl _)
  | .array items, _, h => by
    cases h with
    | array hitems =>
      rw [ExprKind.leaves, ExprKind.leaves]
      exact Expr.leavesList_becomes items hitems
  | .aggregate target fields, _, h => by
    cases h with
    | aggregate _ hfields =>
      rw [ExprKind.leaves, ExprKind.leaves]
      exact FieldInit.leavesList_becomes fields hfields
  | .tuple items, _, h => by
    cases h with
    | tuple hitems =>
      rw [ExprKind.leaves, ExprKind.leaves]
      exact Expr.leavesList_becomes items hitems
  | .variant enumName variant none, _, h => by
    cases h with
    | variant hdata =>
      cases hdata
      exact .refl _
  | .variant enumName variant (some data), _, h => by
    cases h with
    | variant hdata =>
      cases hdata with
      | some hdata =>
        rw [ExprKind.leaves, ExprKind.leaves]
        exact .cons _ (.cons _ (Expr.leavesList_becomes data hdata))
  | .ternary cond thenExpr elseExpr, _, h => by
    cases h with
    | ternary hcond hthen helse =>
      rw [ExprKind.leaves, ExprKind.leaves]
      exact (cond.leaves_becomes hcond).append
        ((thenExpr.leaves_becomes hthen).append (elseExpr.leaves_becomes helse))
  | .cast expr ty, _, h => by
    cases h with
    | cast hexpr =>
      rw [ExprKind.leaves, ExprKind.leaves]
      exact (expr.leaves_becomes hexpr).append (.refl _)

/-- Expressions keep their leaves. -/
theorem Expr.leavesList_becomes : (es : List Expr) → {es' : List Expr} →
    List.Forall₂ (Expr.Becomes r locals) es es' →
    LeavesBecome r (Expr.leavesList es) (Expr.leavesList es')
  | [], _, h => by
    cases h
    exact .nil
  | e :: es, _, h => by
    cases h with
    | cons he hes =>
      rw [Expr.leavesList, Expr.leavesList]
      exact (e.leaves_becomes he).append (Expr.leavesList_becomes es hes)

/-- The fields of an aggregate literal keep their leaves. -/
theorem FieldInit.leavesList_becomes : (fields : List FieldInit) → {fields' : List FieldInit} →
    List.Forall₂ (FieldInit.Becomes r locals) fields fields' →
    LeavesBecome r (FieldInit.leavesList fields) (FieldInit.leavesList fields')
  | [], _, h => by
    cases h
    exact .nil
  | ⟨name, value⟩ :: fields, _, h => by
    cases h with
    | cons hfield hfields =>
      cases hfield with
      | valued hvalue =>
        rw [FieldInit.leavesList, FieldInit.leavesList]
        exact .cons _ ((value.leaves_becomes hvalue).append
          (FieldInit.leavesList_becomes fields hfields))

end

/-- An optional expression keeps its leaves. -/
theorem Expr.leaves?_becomes {e e' : Option Expr} (h : Option.Rel (Expr.Becomes r locals) e e') :
    LeavesBecome r (Expr.leaves? e) (Expr.leaves? e') := by
  cases h with
  | some he => exact Expr.leaves_becomes _ he
  | none => exact .nil

end

section

variable {r : Registry}

mutual

/-- A statement keeps its leaves. -/
theorem Stmt.leaves_becomes : (s : Stmt) → {locals : List String} → {s' : Stmt} →
    s.Becomes r locals s' → LeavesBecome r s.leaves s'.leaves
  | .letVar span name ty mutable init, _, _, h => by
    cases h with
    | letVar hinit =>
      rw [Stmt.leaves, Stmt.leaves]
      exact .cons _ (.cons _ (.cons _ ((LeavesBecome.refl _).append (Expr.leaves?_becomes hinit))))
  | .assign span target value, _, _, h => by
    cases h with
    | assign htarget hvalue =>
      rw [Stmt.leaves, Stmt.leaves]
      exact .cons _ ((target.leaves_becomes htarget).append (value.leaves_becomes hvalue))
  | .ret span value, _, _, h => by
    cases h with
    | ret hvalue =>
      rw [Stmt.leaves, Stmt.leaves]
      exact .cons _ (Expr.leaves?_becomes hvalue)
  | .ifElse span cond thenBlock elseBlock, _, _, h => by
    cases h with
    | ifElse hcond hthen helse =>
      rw [Stmt.leaves, Stmt.leaves]
      exact .cons _ ((cond.leaves_becomes hcond).append
        ((thenBlock.leaves_becomes hthen).append (Block.leaves?_becomes elseBlock helse)))
  | .whileLoop span cond body, _, _, h => by
    cases h with
    | whileLoop hcond hbody =>
      rw [Stmt.leaves, Stmt.leaves]
      exact .cons _ ((cond.leaves_becomes hcond).append (body.leaves_becomes hbody))
  | .forEach span var iterable body, _, _, h => by
    cases h with
    | forEach hiterable hbody =>
      rw [Stmt.leaves, Stmt.leaves]
      exact .cons _ (.cons _ ((iterable.leaves_becomes hiterable).append
        (body.leaves_becomes hbody)))
  | .switch span scrutinee cases, _, _, h => by
    cases h with
    | switch hscrutinee hcases =>
      rw [Stmt.leaves, Stmt.leaves]
      exact .cons _ ((scrutinee.leaves_becomes hscrutinee).append
        (SwitchCase.leavesList_becomes cases hcases))
  | .breakLoop span, _, _, h | .continueLoop span, _, _, h => by
    cases h
    exact .refl _
  | .expr e, _, _, h => by
    cases h with
    | expr he =>
      rw [Stmt.leaves, Stmt.leaves]
      exact e.leaves_becomes he
  | .block body, _, _, h => by
    cases h with
    | block hbody =>
      rw [Stmt.leaves, Stmt.leaves]
      exact body.leaves_becomes hbody
termination_by structural s => s

/-- Statements keep their leaves. -/
theorem Stmt.leavesList_becomes : (ss : List Stmt) → {locals : List String} → {ss' : List Stmt} →
    Stmt.BecomesList r locals ss ss' → LeavesBecome r (Stmt.leavesList ss) (Stmt.leavesList ss')
  | [], _, _, h => by
    cases h
    exact .nil
  | s :: ss, _, _, h => by
    cases h with
    | cons hs hss =>
      rw [Stmt.leavesList, Stmt.leavesList]
      exact (s.leaves_becomes hs).append (Stmt.leavesList_becomes ss hss)
termination_by structural ss => ss

/-- A block keeps its leaves. -/
theorem Block.leaves_becomes : (body : Block) → {locals : List String} → {body' : Block} →
    body.Becomes r locals body' → LeavesBecome r body.leaves body'.leaves
  | ⟨span, stmts⟩, _, _, h => by
    cases h with
    | stmts hstmts =>
      rw [Block.leaves, Block.leaves]
      exact .cons _ (Stmt.leavesList_becomes stmts hstmts)
termination_by structural body => body

/-- An optional block keeps its leaves. -/
theorem Block.leaves?_becomes : (body : Option Block) → {locals : List String} →
    {body' : Option Block} → Block.Becomes? r locals body body' →
    LeavesBecome r (Block.leaves? body) (Block.leaves? body')
  | none, _, _, h => by
    cases h
    exact .nil
  | some body, _, _, h => by
    cases h with
    | some hbody =>
      rw [Block.leaves?, Block.leaves?]
      exact body.leaves_becomes hbody
termination_by structural body => body

/-- The cases of a switch keep their leaves. -/
theorem SwitchCase.leavesList_becomes : (cases : List SwitchCase) → {locals : List String} →
    {cases' : List SwitchCase} → SwitchCase.BecomesList r locals cases cases' →
    LeavesBecome r (SwitchCase.leavesList cases) (SwitchCase.leavesList cases')
  | [], _, _, h => by
    cases h
    exact .nil
  | ⟨span, value, body, fallthrough⟩ :: cases, _, _, h => by
    cases h with
    | cons hvalue hbody hcases =>
      rw [SwitchCase.leavesList, SwitchCase.leavesList]
      exact .cons _ (.cons _ ((Expr.leaves?_becomes hvalue).append
        ((Stmt.leavesList_becomes body hbody).append (SwitchCase.leavesList_becomes cases hcases))))
termination_by structural cases => cases

end

/-- The body of a function keeps its leaves. -/
theorem FunctionDecl.Becomes.leaves {owner : Option String} {f f' : FunctionDecl}
    (h : f.Becomes r owner f') : LeavesBecome r f.body.leaves f'.body.leaves := by
  obtain ⟨_, _, _, _, ⟨span, stmts⟩, _, _⟩ := f
  rw [h.header]
  exact Block.leaves_becomes _ (.stmts h.body)

/-- The bodies of a declaration keep their leaves. -/
theorem Decl.Becomes.leaves {d d' : Decl} (h : d.Becomes r d') :
    LeavesBecome r d.leaves d'.leaves := by
  cases h with
  | struct | enum | synonym => exact .nil
  | function hf => exact hf.leaves
  | impl hmethods => exact List.rel_flatMap hmethods fun _ _ hf => FunctionDecl.Becomes.leaves hf

/-- What a program becomes has the same leaves, each as often and in the same order, except that the
name of an enum before a dot may lose its own range. -/
theorem Program.Becomes.leaves {p p' : Program} (h : p.Becomes p') :
    LeavesBecome (.ofProgram p) p.leaves p'.leaves :=
  List.rel_flatMap h fun _ _ hd => Decl.Becomes.leaves hd

end

end Oxidize
