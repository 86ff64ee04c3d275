import Oxidize.Diagnostic
import Oxidize.Traced
import Oxidize.Typing.Infer

/-!
# Type resolution

`Program.resolve` annotates every expression of a program. On the way it turns accesses to members
of an enum into variants, gives pending aggregate literals the type that governs them, tags calls
on namespaces, and records the type of the object of method calls and field accesses. The trace
holds what it decided and every fault, in the order of the walk; strictness is no concern of the
walk, only of what is made of the faults.
-/

namespace Oxidize

/-- A record of type resolution. -/
inductive Finding where
  | note (n : Note)
  | fault (f : Fault)
deriving DecidableEq

namespace Finding

/-- The note of a finding. -/
def note? : Finding → Option Note
  | .note n => some n
  | .fault _ => none

/-- The fault of a finding. -/
def fault? : Finding → Option Fault
  | .note _ => none
  | .fault f => some f

end Finding

/-- An expression, a statement or a program with what was found while resolving it. -/
abbrev Resolving := Traced Finding

/-- The faults that were found, in order. -/
def Resolving.faults {α : Type} (x : Resolving α) : List Fault :=
  x.trace.filterMap Finding.fault?

/-- The annotation of an expression: its inferred type, except that an empty sequence and `null`
take the type of the place they flow into. Reference: the end of `Resolver.expr`. -/
def adopt (expected : Option Ty) (inferred : Ty) : Ty :=
  match inferred, expected with
  | .seq .void, some (.seq t) => .seq t
  | .optional .void, some (.optional t) => .optional t
  | t, _ => t

/-- The aggregate that governs a literal: the expected type through references and one optional.
Reference: `governing` in `retarget_literal`. -/
def governing? (r : Registry) (expected : Option Ty) : Option String := do
  let t ← expected
  let t := match t.stripRefs with
    | .optional inner => inner.stripRefs
    | t => t
  match t with
  | .aggregate name => if r.isStruct name then some name else none
  | _ => none

/-- The target of an aggregate literal in a place of the expected type. Reference:
`retarget_literal`. -/
def retarget (r : Registry) (expected : Option Ty) (target : AggregateTarget) :
    Resolving AggregateTarget :=
  match target, governing? r expected with
  | .pending, some name => do
    .tell (.note (.retargeted name))
    return .named name
  | target, _ => return target

/-- The types that arguments of a method call on a value flow into. Reference: `params` in the method
calls of `Resolver.expr`. -/
def methodParams (r : Registry) (recv : Ty) (method : String) (count : Nat) : List Ty :=
  match Dispatch.onValue? (some recv) method with
  | some d =>
    match d.rule.elementArgs, recv.element? with
    | true, some elem => List.replicate count elem
    | _, _ => []
  | none => ((r.methodOf? recv method).map (·.params)).getD []

/-- What resolving a method call on a value finds before it comes to the arguments. Reference: the
method calls of `Resolver.expr`. -/
def reportDispatch (recv : Ty) (method : String) (span : Span) : Resolving Unit :=
  match Dispatch.onValue? (some recv) method with
  | some d => do
    .tell (.note (.dispatched method recv d.table d.ambiguous))
    .tellIf d.ambiguous (.fault ⟨.ambiguousMethod method, span⟩)
  | none => return ()

/-- What resolving a field access finds after its object. Reference: the fields of `Resolver.expr`. -/
def reportField (r : Registry) (obj : Ty) (field : String) (span : Span) : Resolving Unit :=
  match obj.stripRefs with
  | .aggregate name =>
    .tellIf (r.fieldType? name field).isNone (.fault ⟨.missingField name field, span⟩)
  | _ => return ()

/-- A field access that reads a constant of a namespace. Reference: `is_constant` in the fields of
`Resolver.expr`. -/
def namespaceConstant? (object : Expr) (field : String) (isLocal : String → Bool) :
    Option Constant := do
  (← namespaceOf? none object isLocal).constant? field

mutual

/-- An expression in a place of the expected type. Reference: `Resolver.expr`. -/
def Expr.resolve (r : Registry) (env : Env) (expected : Option Ty) : Expr → Resolving Expr
  | ⟨span, kind, _⟩ => do
    let kind ← kind.resolve r env span expected
    return ⟨span, kind, some (adopt expected (kind.infer r env))⟩

/-- The kind of an expression in a place of the expected type. Reference: `Resolver.expr`, after
`rewrite_variant`. -/
def ExprKind.resolve (r : Registry) (env : Env) (span : Span) (expected : Option Ty) :
    ExprKind → Resolving ExprKind
  | .literal value => return .literal value
  | .ident name => do
    .tellIf (!env.isLocal name && (r.function? name).isNone) (.fault ⟨.unbound name, span⟩)
    return .ident name
  | .unary op expr => return .unary op (← expr.resolve r env none)
  | .binary op left right =>
    return .binary op (← left.resolve r env none) (← right.resolve r env none)
  | .call callee args => do
    let params := ((r.function? callee).map (·.params)).getD []
    return .call callee (← Expr.resolveList r env (params.map r.normalize) args)
  | .methodCall object method ns args objectTy =>
    match ns, enumNamed? r env object with
    | none, some name => do
      let payload := (r.variantPayload? name method).getD []
      return .variant name method
        (some (← Expr.resolveList r env ((payload.map r.normalize).map r.normalize) args))
    | ns, _ =>
      match namespaceOf? ns object env.isLocal with
      | some ns => do
        .tellIf (Dispatch.of? (some ns) none method).isNone (.note (.noMember ns method))
        return .methodCall object method (some ns.ident) (← Expr.resolveList r env [] args) objectTy
      | none => do
        let object ← object.resolve r env none
        let recv := r.normalize object.tyOrVoid
        reportDispatch recv method span
        let params := methodParams r recv method args.length
        return .methodCall object method ns (← Expr.resolveList r env (params.map r.normalize) args)
          (some recv)
  | .index object index => return .index (← object.resolve r env none) (← index.resolve r env none)
  | .field object field objectTy =>
    match enumNamed? r env object with
    | some name => return .variant name field none
    | none =>
      match namespaceConstant? object field env.isLocal with
      | some _ => return .field object field objectTy
      | none => do
        let object ← object.resolve r env none
        let obj := r.normalize object.tyOrVoid
        reportField r obj field span
        return .field object field (some obj)
  | .array items => do
    let elems := match expected.bind Ty.element? with
      | some elem => List.replicate items.length elem
      | none => []
    return .array (← Expr.resolveList r env elems items)
  | .aggregate target fields => do
    let target ← retarget r expected target
    return .aggregate target (← FieldInit.resolveList r env target fields)
  | .tuple items => do
    let elems := match expected with
      | some (.tuple elems) => elems
      | _ => []
    return .tuple (← Expr.resolveList r env elems items)
  | .variant enumName variant data => do
    let payload := (r.variantPayload? enumName variant).getD []
    return .variant enumName variant
      (← Expr.resolveOption r env ((payload.map r.normalize).map r.normalize) data)
  | .ternary cond thenExpr elseExpr =>
    return .ternary (← cond.resolve r env none) (← thenExpr.resolve r env expected)
      (← elseExpr.resolve r env expected)
  | .cast expr ty => return .cast (← expr.resolve r env none) ty

/-- Expressions, each in a place of the expected type at its position. Reference: `Resolver.args`. -/
def Expr.resolveList (r : Registry) (env : Env) : List Ty → List Expr → Resolving (List Expr)
  | _, [] => return []
  | expected, e :: es => do
    let e ← e.resolve r env expected.head?
    return e :: (← Expr.resolveList r env expected.tail es)

/-- The data of a variant. -/
def Expr.resolveOption (r : Registry) (env : Env) (expected : List Ty) :
    Option (List Expr) → Resolving (Option (List Expr))
  | none => return none
  | some es => return some (← Expr.resolveList r env expected es)

/-- The fields of an aggregate literal with the given target. -/
def FieldInit.resolveList (r : Registry) (env : Env) (target : AggregateTarget) :
    List FieldInit → Resolving (List FieldInit)
  | [] => return []
  | ⟨name, value⟩ :: fields => do
    let expected := match target with
      | .named struct => (r.fieldType? struct name).map r.normalize
      | .pending => none
    let value ← value.resolve r env expected
    return ⟨name, value⟩ :: (← FieldInit.resolveList r env target fields)

end

/-- An optional expression in a place of the expected type. -/
def Expr.resolve? (r : Registry) (env : Env) (expected : Option Ty) :
    Option Expr → Resolving (Option Expr)
  | none => return none
  | some e => return some (← e.resolve r env expected)

mutual

/-- A statement, and the types of the variables after it. The last statement of a function with a
result flows into that result. Reference: `Resolver.stmt`. -/
def Stmt.resolve (r : Registry) (ret : Ty) (env : Env) (isTail : Bool) :
    Stmt → Resolving (Stmt × Env)
  | .letVar span name ty mutable init => do
    let declared := ty.map r.normalize
    let init ← Expr.resolve? r env declared init
    let varTy := (declared <|> init.bind (·.ty)).getD .void
    return (.letVar span name ty mutable init, env.declare name varTy)
  | .assign span target value => do
    let target ← target.resolve r env none
    let value ← value.resolve r env target.ty
    return (.assign span target value, env)
  | .ret span value => return (.ret span (← Expr.resolve? r env (some ret) value), env)
  | .ifElse span cond thenBlock elseBlock => do
    let cond ← cond.resolve r env none
    let thenBlock ← thenBlock.resolve r ret env
    let elseBlock ← Block.resolve? r ret env elseBlock
    return (.ifElse span cond thenBlock elseBlock, env)
  | .whileLoop span cond body => do
    let cond ← cond.resolve r env none
    let body ← body.resolve r ret env
    return (.whileLoop span cond body, env)
  | .forEach span var iterable body => do
    let iterable ← iterable.resolve r env none
    let body ← body.resolve r ret (env.push.declare var iterable.tyOrVoid.loopElement)
    return (.forEach span var iterable body, env)
  | .switch span scrutinee cases => do
    let scrutinee ← scrutinee.resolve r env none
    let cases ← SwitchCase.resolveList r ret env scrutinee.ty cases
    return (.switch span scrutinee cases, env)
  | .breakLoop span => return (.breakLoop span, env)
  | .continueLoop span => return (.continueLoop span, env)
  | .expr e => return (.expr (← e.resolve r env (if isTail then some ret else none)), env)
  | .block b => return (.block (← b.resolve r ret env), env)

/-- Statements in sequence, none of them last in the function. Reference: `Resolver.stmts`. -/
def Stmt.resolveList (r : Registry) (ret : Ty) (env : Env) : List Stmt → Resolving (List Stmt)
  | [] => return []
  | s :: ss => do
    let (s, env) ← s.resolve r ret env false
    return s :: (← Stmt.resolveList r ret env ss)

/-- A block, in a frame of its own. Reference: `Resolver.block`. -/
def Block.resolve (r : Registry) (ret : Ty) (env : Env) : Block → Resolving Block
  | ⟨span, stmts⟩ => return ⟨span, ← Stmt.resolveList r ret env.push stmts⟩

/-- An optional block. -/
def Block.resolve? (r : Registry) (ret : Ty) (env : Env) :
    Option Block → Resolving (Option Block)
  | none => return none
  | some b => return some (← b.resolve r ret env)

/-- The cases of a switch over a value of the given type. Reference: the switches of
`Resolver.stmt`. -/
def SwitchCase.resolveList (r : Registry) (ret : Ty) (env : Env) (scrutineeTy : Option Ty) :
    List SwitchCase → Resolving (List SwitchCase)
  | [] => return []
  | ⟨span, value, body, fallthrough⟩ :: cases => do
    let value ← Expr.resolve? r env scrutineeTy value
    let body ← Stmt.resolveList r ret env.push body
    return ⟨span, value, body, fallthrough⟩ ::
      (← SwitchCase.resolveList r ret env scrutineeTy cases)

end

/-- The statements of a function. Reference: the loop of `Resolver.function`. -/
def Stmt.resolveBody (r : Registry) (ret : Ty) (env : Env) : List Stmt → Resolving (List Stmt)
  | [] => return []
  | [s] => do
    let (s, _) ← s.resolve r ret env (!ret.isVoid)
    return [s]
  | s :: ss => do
    let (s, env) ← s.resolve r ret env false
    return s :: (← Stmt.resolveBody r ret env ss)

/-- The types of the variables at the start of a function. In a method block the receiver is a
value of the block's aggregate. Reference: the start of `Resolver.function`. -/
def FunctionDecl.env (r : Registry) (owner : Option String) (f : FunctionDecl) : Env :=
  let start := match owner with
    | some owner => Scope.empty.declare receiverName (.aggregate owner)
    | none => .empty
  f.params.foldl (fun env p => env.declare p.name (r.normalize p.ty)) start

/-- A function. Reference: `Resolver.function`. -/
def FunctionDecl.resolve (r : Registry) (owner : Option String) (f : FunctionDecl) :
    Resolving FunctionDecl := do
  let stmts ← Stmt.resolveBody r (r.normalize f.ret) (f.env r owner) f.body.stmts
  return { f with body := ⟨f.body.span, stmts⟩ }

/-- A declaration. Reference: the loop of `Resolver.program`. -/
def Decl.resolve (r : Registry) : Decl → Resolving Decl
  | .function f => return .function (← f.resolve r none)
  | .impl b => do
    let methods ← b.methods.mapM (·.resolve r (some b.target))
    return .impl { b with methods := methods }
  | d => return d

/-- A program with every expression annotated. Reference: `Resolver.program`. -/
def Program.resolve (p : Program) : Resolving Program := do
  return ⟨← p.decls.mapM (·.resolve (.ofProgram p))⟩

/-- The error after one more fault. Only a strict resolution keeps one, and it keeps the first.
Reference: `Resolver.report`. -/
def keepFault (strict : Bool) (kept : Option Fault) (fault : Fault) : Option Fault :=
  if strict && kept.isNone then some fault else kept

/-- What resolving a program leaves: the annotated program, and an error if there is one. -/
structure Resolution where
  program : Program
  error : Option Fault

/-- The program, unless there is an error. -/
def Resolution.verdict (x : Resolution) : Except Fault Program :=
  x.error.elim (.ok x.program) .error

/-- The resolution of a program in either mode. The faults come up one after the other while the
program is annotated. Reference: `resolve_with`. -/
def Program.resolveWith (p : Program) (strict : Bool) : Resolution :=
  ⟨p.resolve.value, (Resolving.faults p.resolve).foldl (keepFault strict) none⟩

end Oxidize
