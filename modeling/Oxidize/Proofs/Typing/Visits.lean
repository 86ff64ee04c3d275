import Oxidize.Proofs.Places
import Oxidize.Proofs.Typing.Idempotence

/-!
# The visits of type resolution

Type resolution comes to an expression of the source in a scope, in a place of an expected type, and
leaves an annotated expression. `FunctionDecl.visits` lists these visits in the order in which the
expressions are judged: a field access after its object, a method call on a value between its object
and its arguments, and any other expression before its parts.

Two things are known of the list. The faults of resolution are those of the visits, in order
(`FunctionDecl.faults_resolve`), and what the visits leave are the places of the resolved function,
up to order (`FunctionDecl.visits_perm`). Neither asks anything of the program.
-/

namespace Oxidize

open Resolving

/-! ## Visits -/

/-- An expression of the source as type resolution comes to it: the types of the variables there and
the type that the place expects. -/
structure Visit where
  env : Env
  expected : Option Ty
  input : Expr

/-- The fault of a method of a value of the given type: more than one table claims it. -/
def dispatchFault? (recv : Ty) (method : String) (span : Span) : Option Fault :=
  if (Dispatch.onValue? (some recv) method).any (·.ambiguous) then
    some ⟨.ambiguousMethod method, span⟩
  else none

/-- The fault of a field of a value of the given type: the aggregate that the type refers to lacks
it. -/
def fieldFault? (r : Registry) (obj : Ty) (member : String) (span : Span) : Option Fault :=
  match obj.stripRefs with
  | .aggregate name =>
    if (r.fieldType? name member).isNone then some ⟨.missingField name member, span⟩ else none
  | _ => none

/-- The fault of an annotated expression of the given kind, without its parts. -/
def ExprKind.fault? (r : Registry) (env : Env) (span : Span) : ExprKind → Option Fault
  | .ident name =>
    if !env.isLocal name && (r.function? name).isNone then some ⟨.unbound name, span⟩ else none
  | .field object member _ =>
    if (namespaceConstant? object member env.isLocal).isSome then none
    else fieldFault? r (r.normalize object.tyOrVoid) member span
  | .methodCall object method ns _ _ =>
    if (namespaceOf? ns object env.isLocal).isSome then none
    else dispatchFault? (r.normalize object.tyOrVoid) method span
  | _ => none

/-- The kinds of expressions that may have a fault. -/
def ExprKind.isJudged : ExprKind → Bool
  | .ident _ | .field _ _ _ | .methodCall _ _ _ _ _ => true
  | _ => false

namespace Visit

variable (r : Registry) (v : Visit)

/-- The annotated expression that a visit leaves. -/
def output : Expr :=
  (v.input.resolve r v.env v.expected).value

/-- The scope of a visit and what it leaves. -/
def result : Env × Expr :=
  (v.env, v.output r)

/-- The fault of a visit. -/
def fault? : Option Fault :=
  (v.output r).kind.fault? r v.env v.input.span

end Visit

mutual

/-- The visits of an expression in a place of the expected type. -/
def Expr.visits (r : Registry) (env : Env) (expected : Option Ty) : Expr → List Visit
  | ⟨span, kind, ty⟩ => kind.visits r env expected ⟨env, expected, ⟨span, kind, ty⟩⟩

/-- The visits of an expression of the given kind, among them the visit of the expression itself. -/
def ExprKind.visits (r : Registry) (env : Env) (expected : Option Ty) (self : Visit) :
    ExprKind → List Visit
  | .literal _ | .ident _ => [self]
  | .unary _ expr | .cast expr _ => self :: expr.visits r env none
  | .binary _ left right => self :: (left.visits r env none ++ right.visits r env none)
  | .call callee args =>
    let params := ((r.function? callee).map (·.params)).getD []
    self :: Expr.visitsList r env (params.map r.normalize) args
  | .methodCall object method ns args _ =>
    match calledEnum? r env ns object with
    | some name =>
      let payload := (r.variantPayload? name method).getD []
      self :: Expr.visitsList r env ((payload.map r.normalize).map r.normalize) args
    | none =>
      match namespaceOf? ns object env.isLocal with
      | some _ => self :: Expr.visitsList r env [] args
      | none =>
        let recv := r.normalize (object.resolve r env none).value.tyOrVoid
        let params := methodParams r recv method args.length
        object.visits r env none ++ ([self] ++ Expr.visitsList r env (params.map r.normalize) args)
  | .index object index => self :: (object.visits r env none ++ index.visits r env none)
  | .field object field _ =>
    match enumNamed? r env object, namespaceConstant? object field env.isLocal with
    | none, none => object.visits r env none ++ [self]
    | _, _ => [self]
  | .array items =>
    let elems := match expected.bind Ty.element? with
      | some elem => List.replicate items.length elem
      | none => []
    self :: Expr.visitsList r env elems items
  | .aggregate target fields =>
    self :: FieldInit.visitsList r env (retarget r expected target).value fields
  | .tuple items => self :: Expr.visitsList r env (tupleParts expected) items
  | .variant _ _ none => [self]
  | .variant enumName variant (some data) =>
    let payload := (r.variantPayload? enumName variant).getD []
    self :: Expr.visitsList r env ((payload.map r.normalize).map r.normalize) data
  | .ternary cond thenExpr elseExpr =>
    self :: (cond.visits r env none ++
      (thenExpr.visits r env expected ++ elseExpr.visits r env expected))

/-- The visits of expressions, each in a place of the expected type at its position. -/
def Expr.visitsList (r : Registry) (env : Env) : List Ty → List Expr → List Visit
  | _, [] => []
  | expected, e :: es =>
    e.visits r env expected.head? ++ Expr.visitsList r env expected.tail es

/-- The visits of the fields of an aggregate literal with the given target. -/
def FieldInit.visitsList (r : Registry) (env : Env) (target : AggregateTarget) :
    List FieldInit → List Visit
  | [] => []
  | ⟨name, value⟩ :: fields =>
    let expected := match target with
      | .named struct => (r.fieldType? struct name).map r.normalize
      | .pending => none
    value.visits r env expected ++ FieldInit.visitsList r env target fields

end

/-- The visits of an optional expression in a place of the expected type. -/
def Expr.visits? (r : Registry) (env : Env) (expected : Option Ty) (e : Option Expr) : List Visit :=
  e.elim [] (Expr.visits r env expected)

mutual

/-- The visits of a statement. -/
def Stmt.visits (r : Registry) (ret : Ty) (env : Env) (isTail : Bool) : Stmt → List Visit
  | .letVar _ _ ty _ init => Expr.visits? r env (ty.map r.normalize) init
  | .assign _ target value =>
    target.visits r env none ++ value.visits r env (target.resolve r env none).value.ty
  | .ret _ value => Expr.visits? r env (some ret) value
  | .ifElse _ cond thenBlock elseBlock =>
    cond.visits r env none ++ (thenBlock.visits r ret env ++ Block.visits? r ret env elseBlock)
  | .whileLoop _ cond body => cond.visits r env none ++ body.visits r ret env
  | .forEach _ var iterable body =>
    iterable.visits r env none ++ body.visits r ret
      (env.push.declare var (iterable.resolve r env none).value.tyOrVoid.loopElement)
  | .switch _ scrutinee cases =>
    scrutinee.visits r env none ++
      SwitchCase.visitsList r ret env (scrutinee.resolve r env none).value.ty cases
  | .breakLoop _ | .continueLoop _ => []
  | .expr e => e.visits r env (if isTail then some ret else none)
  | .block body => body.visits r ret env

/-- The visits of statements in sequence, none of them last in the function. -/
def Stmt.visitsList (r : Registry) (ret : Ty) (env : Env) : List Stmt → List Visit
  | [] => []
  | s :: ss =>
    s.visits r ret env false ++ Stmt.visitsList r ret (s.resolve r ret env false).value.2 ss

/-- The visits of a block. -/
def Block.visits (r : Registry) (ret : Ty) (env : Env) : Block → List Visit
  | ⟨_, stmts⟩ => Stmt.visitsList r ret env.push stmts

/-- The visits of an optional block. -/
def Block.visits? (r : Registry) (ret : Ty) (env : Env) : Option Block → List Visit
  | none => []
  | some body => body.visits r ret env

/-- The visits of the cases of a switch over a value of the given type. -/
def SwitchCase.visitsList (r : Registry) (ret : Ty) (env : Env) (scrutineeTy : Option Ty) :
    List SwitchCase → List Visit
  | [] => []
  | ⟨_, value, body, _⟩ :: cases =>
    Expr.visits? r env scrutineeTy value ++
      (Stmt.visitsList r ret env.push body ++ SwitchCase.visitsList r ret env scrutineeTy cases)

end

/-- The visits of the statements of a function. -/
def Stmt.visitsBody (r : Registry) (ret : Ty) (env : Env) : List Stmt → List Visit
  | [] => []
  | [s] => s.visits r ret env (!ret.isVoid)
  | s :: ss =>
    s.visits r ret env false ++ Stmt.visitsBody r ret (s.resolve r ret env false).value.2 ss

/-- The visits of a statement of a function that is not the last one. -/
theorem Stmt.visitsBody_cons (r : Registry) (ret : Ty) (env : Env) (s : Stmt) {ss : List Stmt}
    (hss : ss ≠ []) :
    Stmt.visitsBody r ret env (s :: ss) =
      s.visits r ret env false ++
        Stmt.visitsBody r ret (s.resolve r ret env false).value.2 ss := by
  rw [Stmt.visitsBody]
  exact hss

/-- The visits of a function, in a method block of the given aggregate if there is one. -/
def FunctionDecl.visits (r : Registry) (owner : Option String) (f : FunctionDecl) : List Visit :=
  Stmt.visitsBody r (r.normalize f.ret) (f.env r owner) f.body.stmts

/-- The visits of a declaration. -/
def Decl.visits (r : Registry) : Decl → List Visit
  | .function f => f.visits r none
  | .impl b => b.methods.flatMap (·.visits r (some b.target))
  | _ => []

/-- The visits of a program, in order. -/
def Program.visits (p : Program) : List Visit :=
  p.decls.flatMap (·.visits (.ofProgram p))

/-! ## Faults -/

section
variable {α β : Type}

/-- A result that is given has no faults. -/
@[simp] theorem Resolving.faults_pure (a : α) : faults (pure a : Resolving α) = [] := rfl

/-- A note is no fault. -/
@[simp] theorem Resolving.faults_tell_note (n : Note) : faults (.tell (.note n)) = [] := rfl

/-- A note that is made on a condition is no fault. -/
@[simp] theorem Resolving.faults_tellIf_note (b : Bool) (n : Note) :
    faults (.tellIf b (.note n)) = [] := by
  cases b <;> rfl

/-- A fault that is reported on a condition. -/
theorem Resolving.faults_tellIf (b : Bool) (f : Fault) :
    faults (.tellIf b (.fault f)) = (if b then some f else none).toList := by
  cases b <;> rfl

/-- Choosing the target of an aggregate reports no fault. -/
@[simp] theorem retarget_faults (r : Registry) (expected : Option Ty) (target : AggregateTarget) :
    faults (retarget r expected target) = [] := by
  cases target with
  | named name => rfl
  | pending =>
    unfold retarget
    split <;> rfl

end

/-- Reporting a dispatch finds its fault. -/
theorem reportDispatch_faults (recv : Ty) (method : String) (span : Span) :
    faults (reportDispatch recv method span) = (dispatchFault? recv method span).toList := by
  unfold reportDispatch dispatchFault?
  cases Dispatch.onValue? (some recv) method with
  | some d =>
    dsimp only
    rw [faults_bind, faults_tell_note, List.nil_append, faults_tellIf, Option.any_some]
  | none => rfl

/-- Reporting an access to a field finds its fault. -/
theorem reportField_faults (r : Registry) (obj : Ty) (member : String) (span : Span) :
    faults (reportField r obj member span) = (fieldFault? r obj member span).toList := by
  unfold reportField fieldFault?
  cases obj.stripRefs with
  | aggregate name => exact faults_tellIf _ _
  | _ => rfl

/-! ## Rules -/

/-- The resolution finds the faults of the visits, which are all in the given scope and leave the
annotated expressions, up to order. -/
structure Traverses {α : Type} (r : Registry) (env : Env) (x : Resolving α) (nodes : List Expr)
    (visits : List Visit) : Prop where
  faults : Resolving.faults x = visits.filterMap (Visit.fault? r)
  results : (visits.map (Visit.result r)).Perm (nodes.map (Prod.mk env))

namespace Traverses

variable {α β : Type} {r : Registry} {env : Env} {x : Resolving α} {f : α → Resolving β}
  {nodes nodes' : List Expr} {vs vs' : List Visit}

/-- A result that is given visits nothing. -/
theorem pure (a : α) : Traverses r env (Pure.pure a) [] [] :=
  ⟨rfl, .refl _⟩

/-- Two traversals in a row make the visits of both. -/
theorem bind (hx : Traverses r env x nodes vs) (hf : Traverses r env (f x.value) nodes' vs') :
    Traverses r env (x >>= f) (nodes ++ nodes') (vs ++ vs') where
  faults := by rw [faults_bind, hx.faults, hf.faults, List.filterMap_append]
  results := by
    rw [List.map_append, List.map_append]
    exact hx.results.append hf.results

/-- What is made of the result finds nothing. -/
theorem map (hx : Traverses r env x nodes vs) (g : α → β) :
    Traverses r env (x >>= fun a => Pure.pure (g a)) nodes vs where
  faults := by rw [faults_bind, faults_pure, List.append_nil, hx.faults]
  results := hx.results

/-- What comes before finds no fault. -/
theorem after (hx : Resolving.faults x = []) (hf : Traverses r env (f x.value) nodes vs) :
    Traverses r env (x >>= f) nodes vs where
  faults := by rw [faults_bind, hx, List.nil_append, hf.faults]
  results := hf.results

/-- The order of the nodes does not matter, only that of the visits. -/
theorem perm (hx : Traverses r env x nodes vs) (h : nodes.Perm nodes') :
    Traverses r env x nodes' vs :=
  ⟨hx.faults, hx.results.trans (h.map _)⟩

/-- A step that judges an expression. -/
theorem judge {expected : Option Ty} {input : Expr}
    (hx : Resolving.faults x = (Visit.fault? r ⟨env, expected, input⟩).toList) :
    Traverses r env x [Visit.output r ⟨env, expected, input⟩] [⟨env, expected, input⟩] where
  faults := by
    rw [hx, List.filterMap_cons, List.filterMap_nil]
    cases Visit.fault? r ⟨env, expected, input⟩ <;> rfl
  results := .refl _

/-- An expression that has no fault itself comes before its parts. -/
theorem head {expected : Option Ty} {input : Expr}
    (h : Visit.fault? r ⟨env, expected, input⟩ = none) (hx : Traverses r env x nodes vs) :
    Traverses r env x (Visit.output r ⟨env, expected, input⟩ :: nodes)
      (⟨env, expected, input⟩ :: vs) where
  faults := by rw [List.filterMap_cons, h, hx.faults]
  results := hx.results.cons _

end Traverses

/-! ## Expressions -/

section
variable (r : Registry) (env : Env)

/-- What a visit leaves has the range of the expression that it came to. -/
theorem Visit.span_output (v : Visit) : (v.output r).span = v.input.span := by
  obtain ⟨env, expected, span, kind, ty⟩ := v
  rw [Visit.output, Expr.resolve]
  rfl

/-- What a visit leaves is annotated. -/
theorem Visit.isSome_ty_output (v : Visit) : (v.output r).ty.isSome = true := by
  obtain ⟨env, expected, span, kind, ty⟩ := v
  rw [Visit.output, Expr.resolve]
  rfl

/-- The kind of what a visit leaves is the resolved kind. -/
theorem Visit.kind_output (expected : Option Ty) (span : Span) (kind : ExprKind) (ty : Option Ty) :
    (Visit.output r ⟨env, expected, ⟨span, kind, ty⟩⟩).kind =
      (kind.resolve r env span expected).value := by
  rw [Visit.output, Expr.resolve]
  rfl

/-- The fault of a visit is that of the resolved kind. -/
theorem Visit.fault?_eq (expected : Option Ty) (span : Span) (kind : ExprKind) (ty : Option Ty) :
    Visit.fault? r ⟨env, expected, ⟨span, kind, ty⟩⟩ =
      (kind.resolve r env span expected).value.fault? r env span := by
  rw [Visit.fault?, Visit.kind_output]

/-- An expression of any other kind is left with a kind that has no fault. -/
theorem Visit.fault?_of_isJudged (expected : Option Ty) (span : Span) {kind : ExprKind}
    (ty : Option Ty) (h : kind.isJudged = false) :
    Visit.fault? r ⟨env, expected, ⟨span, kind, ty⟩⟩ = none := by
  rw [Visit.fault?_eq]
  cases kind with
  | ident | field | methodCall => cases h
  | tuple items => rw [ExprKind.resolve_tuple]; rfl
  | _ => rw [ExprKind.resolve]; rfl

/-- The parts that passes come to in what a visit leaves are those of its kind. -/
theorem Expr.visited_resolve (expected : Option Ty) (span : Span) (kind : ExprKind)
    (ty : Option Ty) (isLocal : String → Bool) :
    (Expr.resolve r env expected ⟨span, kind, ty⟩).value.visited isLocal =
      Visit.output r ⟨env, expected, ⟨span, kind, ty⟩⟩ ::
        (kind.resolve r env span expected).value.visited isLocal := by
  rw [Visit.output, Expr.resolve, Traced.value_bind, Traced.value_pure, Expr.visited]

variable {r env}

/-- An expression is traversed as its kind is. -/
theorem Traverses.ofKind {expected : Option Ty} {span : Span} {kind : ExprKind} {ty : Option Ty}
    {vs : List Visit}
    (h : Traverses r env (kind.resolve r env span expected)
      (Visit.output r ⟨env, expected, ⟨span, kind, ty⟩⟩ ::
        (kind.resolve r env span expected).value.visited env.isLocal) vs) :
    Traverses r env (Expr.resolve r env expected ⟨span, kind, ty⟩)
      ((Expr.resolve r env expected ⟨span, kind, ty⟩).value.visited env.isLocal) vs := by
  rw [Expr.visited_resolve, Expr.resolve]
  exact h.map _

mutual

/-- Resolving an expression goes through its visits. -/
theorem Expr.resolve_traverses (expected : Option Ty) :
    (e : Expr) → Traverses r env (e.resolve r env expected)
      ((e.resolve r env expected).value.visited env.isLocal) (e.visits r env expected)
  | ⟨span, kind, ty⟩ => by
    rw [Expr.visits]
    exact .ofKind (kind.resolve_traverses expected span ty)

/-- Resolving the kind of an expression traverses it and all inside it. -/
theorem ExprKind.resolve_traverses (expected : Option Ty) (span : Span) (ty : Option Ty) :
    (kind : ExprKind) → Traverses r env (kind.resolve r env span expected)
      (Visit.output r ⟨env, expected, ⟨span, kind, ty⟩⟩ ::
        (kind.resolve r env span expected).value.visited env.isLocal)
      (kind.visits r env expected ⟨env, expected, ⟨span, kind, ty⟩⟩)
  | .literal value => by
    rw [ExprKind.resolve, ExprKind.visits]
    exact .head (Visit.fault?_of_isJudged r env _ _ _ rfl) (.pure _)
  | .ident name => by
    have hfault := Visit.fault?_eq r env expected span (.ident name) ty
    rw [ExprKind.resolve] at hfault ⊢
    rw [ExprKind.visits]
    refine (Traverses.judge ?_).map _
    rw [hfault, faults_tellIf]
    rfl
  | .unary op expr => by
    rw [ExprKind.resolve, ExprKind.visits]
    exact .head (Visit.fault?_of_isJudged r env _ _ _ rfl)
      ((expr.resolve_traverses none).map _)
  | .cast expr target => by
    rw [ExprKind.resolve, ExprKind.visits]
    exact .head (Visit.fault?_of_isJudged r env _ _ _ rfl)
      ((expr.resolve_traverses none).map _)
  | .binary op left right => by
    rw [ExprKind.resolve, ExprKind.visits]
    exact .head (Visit.fault?_of_isJudged r env _ _ _ rfl)
      ((left.resolve_traverses none).bind ((right.resolve_traverses none).map _))
  | .call callee args => by
    rw [ExprKind.resolve, ExprKind.visits]
    exact .head (Visit.fault?_of_isJudged r env _ _ _ rfl)
      ((Expr.resolveList_traverses _ args).map _)
  | .methodCall object method ns args objectTy => by
    have hfault := Visit.fault?_eq r env expected span (.methodCall object method ns args objectTy) ty
    rw [ExprKind.visits]
    cases hc : calledEnum? r env ns object with
    | some name =>
      rw [ExprKind.resolve_onEnum hc] at hfault ⊢
      exact .head hfault ((Expr.resolveList_traverses _ args).map _)
    | none =>
      cases hns : namespaceOf? ns object env.isLocal with
      | some n =>
        rw [ExprKind.resolve_onNamespace hc hns] at hfault ⊢
        have hvisited : namespaceOf? (some n.ident) object env.isLocal = some n :=
          Namespace.ofIdent?_ident n
        have hnone : Visit.fault? r
            ⟨env, expected, ⟨span, .methodCall object method ns args objectTy, ty⟩⟩ = none := by
          rw [hfault]
          simp only [Traced.value_bind, Traced.value_pure, ExprKind.fault?, hvisited,
            Option.isSome_some, if_true]
        simp only [Traced.value_bind, Traced.value_pure, ExprKind.visited, hvisited]
        exact .head hnone (.after (faults_tellIf_note _ _) ((Expr.resolveList_traverses _ args).map _))
      | none =>
        rw [ExprKind.resolve_onValue hc hns] at hfault ⊢
        have hobject := object.resolve_traverses none
        simp only [Traced.value_bind, Traced.value_pure, ExprKind.fault?, namespaceOf?_resolve, hns,
          Option.isSome_none, Bool.false_eq_true, if_false] at hfault
        simp only [Traced.value_bind, Traced.value_pure, ExprKind.visited, namespaceOf?_resolve, hns]
        refine (hobject.bind ((Traverses.judge ?_).bind
          ((Expr.resolveList_traverses _ args).map _))).perm List.perm_middle
        rw [hfault]
        exact reportDispatch_faults ..
  | .index object index => by
    rw [ExprKind.resolve, ExprKind.visits]
    exact .head (Visit.fault?_of_isJudged r env _ _ _ rfl)
      ((object.resolve_traverses none).bind ((index.resolve_traverses none).map _))
  | .field object member objectTy => by
    have hfault := Visit.fault?_eq r env expected span (.field object member objectTy) ty
    rw [ExprKind.visits]
    cases hc : enumNamed? r env object with
    | some name =>
      simp only [ExprKind.resolve, hc] at hfault ⊢
      exact .head hfault (.pure _)
    | none =>
      cases hconst : namespaceConstant? object member env.isLocal with
      | some c =>
        simp only [ExprKind.resolve, hc, hconst, Traced.value_pure, ExprKind.fault?,
          Option.isSome_some, if_true] at hfault
        simp only [ExprKind.resolve, hc, hconst, Traced.value_pure, ExprKind.visited]
        exact .head hfault (.pure _)
      | none =>
        have hobject := object.resolve_traverses none
        simp only [ExprKind.resolve, hc, hconst, Traced.value_bind, Traced.value_pure,
          ExprKind.fault?, namespaceConstant?_resolve, Option.isSome_none, Bool.false_eq_true,
          if_false] at hfault
        simp only [ExprKind.resolve, hc, hconst, Traced.value_bind, Traced.value_pure,
          ExprKind.visited, namespaceConstant?_resolve]
        refine (hobject.bind ((Traverses.judge ?_).map _)).perm (List.perm_append_singleton ..)
        rw [hfault]
        exact reportField_faults ..
  | .array items => by
    rw [ExprKind.resolve, ExprKind.visits]
    exact .head (Visit.fault?_of_isJudged r env _ _ _ rfl)
      ((Expr.resolveList_traverses _ items).map _)
  | .tuple items => by
    rw [ExprKind.resolve_tuple, ExprKind.visits]
    exact .head (Visit.fault?_of_isJudged r env _ _ _ rfl)
      ((Expr.resolveList_traverses _ items).map _)
  | .aggregate target fields => by
    rw [ExprKind.resolve, ExprKind.visits]
    exact .head (Visit.fault?_of_isJudged r env _ _ _ rfl)
      (.after (retarget_faults ..) ((FieldInit.resolveList_traverses _ fields).map _))
  | .variant enumName variant none => by
    rw [ExprKind.resolve, Expr.resolveOption, ExprKind.visits]
    exact .head (Visit.fault?_of_isJudged r env _ _ _ rfl) (.pure _)
  | .variant enumName variant (some data) => by
    rw [ExprKind.resolve, Expr.resolveOption, ExprKind.visits]
    exact .head (Visit.fault?_of_isJudged r env _ _ _ rfl)
      (((Expr.resolveList_traverses _ data).map _).map _)
  | .ternary cond thenExpr elseExpr => by
    rw [ExprKind.resolve, ExprKind.visits]
    exact .head (Visit.fault?_of_isJudged r env _ _ _ rfl)
      ((cond.resolve_traverses none).bind ((thenExpr.resolve_traverses expected).bind
        ((elseExpr.resolve_traverses expected).map _)))

/-- Resolving expressions traverses them from left to right. -/
theorem Expr.resolveList_traverses (expected : List Ty) :
    (es : List Expr) → Traverses r env (Expr.resolveList r env expected es)
      (Expr.visitedList env.isLocal (Expr.resolveList r env expected es).value)
      (Expr.visitsList r env expected es)
  | [] => by
    rw [Expr.resolveList, Expr.visitsList]
    exact .pure _
  | e :: es => by
    have he := e.resolve_traverses expected.head?
    have hes := Expr.resolveList_traverses expected.tail es
    rw [Expr.resolveList, Expr.visitsList, Traced.value_bind, Traced.value_bind, Traced.value_pure,
      Expr.visitedList]
    exact he.bind (hes.map _)

/-- Resolving the fields of an aggregate traverses their values from left to right. -/
theorem FieldInit.resolveList_traverses (target : AggregateTarget) :
    (fields : List FieldInit) → Traverses r env (FieldInit.resolveList r env target fields)
      (FieldInit.visitedList env.isLocal (FieldInit.resolveList r env target fields).value)
      (FieldInit.visitsList r env target fields)
  | [] => by
    rw [FieldInit.resolveList, FieldInit.visitsList]
    exact .pure _
  | ⟨name, value⟩ :: fields => by
    have hfields := FieldInit.resolveList_traverses target fields
    unfold FieldInit.resolveList FieldInit.visitsList
    rw [Traced.value_bind, Traced.value_bind, Traced.value_pure, FieldInit.visitedList]
    exact (value.resolve_traverses _).bind (hfields.map _)

end

/-- The faults of an optional expression are those of its visits. -/
theorem Expr.resolve?_faults (expected : Option Ty) (e : Option Expr) :
    faults (Expr.resolve? r env expected e) =
      (Expr.visits? r env expected e).filterMap (Visit.fault? r) := by
  cases e with
  | none => rfl
  | some e =>
    rw [Expr.resolve?, faults_bind, faults_pure, List.append_nil]
    exact (e.resolve_traverses expected).faults

end

/-! ## Faults of statements -/

section
variable (r : Registry) (ret : Ty)

mutual

/-- The faults of a statement are those of its visits. -/
theorem Stmt.faults_resolve :
    (s : Stmt) → (env : Env) → (isTail : Bool) →
      faults (s.resolve r ret env isTail) =
        (s.visits r ret env isTail).filterMap (Visit.fault? r)
  | .letVar _ _ ty _ init, env, _ => by
    rw [Stmt.resolve, Stmt.visits, faults_bind, Expr.resolve?_faults, faults_pure, List.append_nil]
  | .assign _ target value, env, _ => by
    rw [Stmt.resolve, Stmt.visits, faults_bind, faults_bind, faults_pure, List.append_nil,
      List.filterMap_append, (target.resolve_traverses _).faults,
      (value.resolve_traverses _).faults]
  | .ret _ value, env, _ => by
    rw [Stmt.resolve, Stmt.visits, faults_bind, Expr.resolve?_faults, faults_pure, List.append_nil]
  | .ifElse _ cond thenBlock elseBlock, env, _ => by
    rw [Stmt.resolve, Stmt.visits, faults_bind, faults_bind, faults_bind, faults_pure,
      List.append_nil, List.filterMap_append, List.filterMap_append,
      (cond.resolve_traverses _).faults, thenBlock.faults_resolve, Block.faults_resolve? elseBlock]
  | .whileLoop _ cond body, env, _ => by
    rw [Stmt.resolve, Stmt.visits, faults_bind, faults_bind, faults_pure, List.append_nil,
      List.filterMap_append, (cond.resolve_traverses _).faults, body.faults_resolve]
  | .forEach _ var iterable body, env, _ => by
    rw [Stmt.resolve, Stmt.visits, faults_bind, faults_bind, faults_pure, List.append_nil,
      List.filterMap_append, (iterable.resolve_traverses _).faults, body.faults_resolve]
  | .switch _ scrutinee cases, env, _ => by
    rw [Stmt.resolve, Stmt.visits, faults_bind, faults_bind, faults_pure, List.append_nil,
      List.filterMap_append, (scrutinee.resolve_traverses _).faults,
      SwitchCase.faults_resolveList cases]
  | .breakLoop _, env, _ | .continueLoop _, env, _ => by
    rw [Stmt.resolve, Stmt.visits]
    rfl
  | .expr e, env, isTail => by
    rw [Stmt.resolve, Stmt.visits, faults_bind, faults_pure, List.append_nil,
      (e.resolve_traverses _).faults]
  | .block body, env, _ => by
    rw [Stmt.resolve, Stmt.visits, faults_bind, faults_pure, List.append_nil, body.faults_resolve]

/-- The faults of statements are those of their visits. -/
theorem Stmt.faults_resolveList :
    (ss : List Stmt) → (env : Env) →
      faults (Stmt.resolveList r ret env ss) =
        (Stmt.visitsList r ret env ss).filterMap (Visit.fault? r)
  | [], _ => by
    rw [Stmt.resolveList, Stmt.visitsList]
    rfl
  | s :: ss, env => by
    rw [Stmt.resolveList, Stmt.visitsList, faults_bind, faults_bind, faults_pure, List.append_nil,
      List.filterMap_append, s.faults_resolve, Stmt.faults_resolveList ss]

/-- The faults of a block are those of its visits. -/
theorem Block.faults_resolve :
    (body : Block) → (env : Env) →
      faults (body.resolve r ret env) = (body.visits r ret env).filterMap (Visit.fault? r)
  | ⟨_, stmts⟩, env => by
    rw [Block.resolve, Block.visits, faults_bind, faults_pure, List.append_nil,
      Stmt.faults_resolveList stmts]

/-- The faults of an optional block are those of its visits. -/
theorem Block.faults_resolve? :
    (body : Option Block) → (env : Env) →
      faults (Block.resolve? r ret env body) =
        (Block.visits? r ret env body).filterMap (Visit.fault? r)
  | none, _ => by
    rw [Block.resolve?, Block.visits?]
    rfl
  | some body, env => by
    rw [Block.resolve?, Block.visits?, faults_bind, faults_pure, List.append_nil,
      body.faults_resolve]

/-- The faults of the cases of a switch are those of their visits. -/
theorem SwitchCase.faults_resolveList :
    (cases : List SwitchCase) → (env : Env) → (scrutineeTy : Option Ty) →
      faults (SwitchCase.resolveList r ret env scrutineeTy cases) =
        (SwitchCase.visitsList r ret env scrutineeTy cases).filterMap (Visit.fault? r)
  | [], _, _ => by
    rw [SwitchCase.resolveList, SwitchCase.visitsList]
    rfl
  | ⟨_, value, body, _⟩ :: cases, env, scrutineeTy => by
    rw [SwitchCase.resolveList, SwitchCase.visitsList, faults_bind, faults_bind, faults_bind,
      faults_pure, List.append_nil, List.filterMap_append, List.filterMap_append,
      Expr.resolve?_faults, Stmt.faults_resolveList body, SwitchCase.faults_resolveList cases]

end

/-- The faults of the body of a function are those of its visits. -/
theorem Stmt.faults_resolveBody (ss : List Stmt) (env : Env) :
    faults (Stmt.resolveBody r ret env ss) =
      (Stmt.visitsBody r ret env ss).filterMap (Visit.fault? r) := by
  induction ss generalizing env with
  | nil => rfl
  | cons s ss ih =>
    cases ss with
    | nil =>
      rw [Stmt.resolveBody, Stmt.visitsBody, faults_bind, faults_pure, List.append_nil,
        s.faults_resolve]
    | cons s' ss =>
      rw [Stmt.resolveBody_cons r env ret s (List.cons_ne_nil _ _),
        Stmt.visitsBody_cons r ret env s (List.cons_ne_nil _ _), faults_bind, faults_bind,
        faults_pure, List.append_nil, List.filterMap_append, s.faults_resolve, ih]

end

/-! ## Places of statements -/

/-- The scope of type resolution at a place, and the expression there. -/
def Place.typed (pl : Place) : Env × Expr :=
  (pl.scopes.typed, pl.node)

/-- From the places of resolved statements: type resolution has the given scope at the end, and the
places are what the visits leave, up to order. -/
structure Leaves (r : Registry) (out : Traced Place Scopes) (env : Env) (visits : List Visit) :
    Prop where
  typed : out.value.typed = env
  places : (visits.map (Visit.result r)).Perm (out.trace.map Place.typed)

namespace Leaves

variable {r : Registry} {env env' : Env} {σ : Scopes} {out : Traced Place Scopes}
  {f : Scopes → Traced Place Scopes} {vs vs' : List Visit}

/-- Where nothing is resolved, no visit is left. -/
theorem pure (hσ : σ.typed = env) : Leaves r (Pure.pure σ) env [] :=
  ⟨hσ, .refl _⟩

/-- Two parts in a row leave the visits of both. -/
theorem bind (h : Leaves r out env vs) (hf : Leaves r (f out.value) env' vs') :
    Leaves r (out >>= f) env' (vs ++ vs') where
  typed := hf.typed
  places := by
    rw [List.map_append, Traced.trace_bind, List.map_append]
    exact h.places.append hf.places

/-- An expression comes before the rest. -/
theorem visit (hσ : σ.typed = env) (expected : Option Ty) (e : Expr) (h : Leaves r out env' vs) :
    Leaves r (σ.visit (e.resolve r env expected).value >>= fun _ => out) env'
      (e.visits r env expected ++ vs) where
  typed := h.typed
  places := by
    subst hσ
    rw [List.map_append, Traced.trace_bind, List.map_append, Scopes.visit, Traced.tellAll,
      List.map_map]
    exact (e.resolve_traverses expected).results.append h.places

/-- An optional expression leaves its visits. -/
theorem visit? (hσ : σ.typed = env) (expected : Option Ty) (e : Option Expr)
    (h : Leaves r out env' vs) :
    Leaves r (σ.visit? (Expr.resolve? r env expected e).value >>= fun _ => out) env'
      (Expr.visits? r env expected e ++ vs) := by
  cases e with
  | none => exact h
  | some e => exact h.visit hσ expected e

/-- Nothing comes after the last expression. -/
theorem last (h : Leaves r out env (vs ++ [])) : Leaves r out env vs := by
  rwa [List.append_nil] at h

/-- After a block type resolution goes back to the scope before it. -/
theorem leave (hσ : σ.typed = env) (inline : Bool) (h : Leaves r out env' vs) :
    Leaves r (out >>= fun inner => Pure.pure (σ.leave inline inner)) env vs where
  typed := hσ
  places := by
    rw [Traced.trace_bind, Traced.trace_pure, List.append_nil]
    exact h.places

end Leaves

section
variable (r : Registry) (ret : Ty)

mutual

/-- The places of a resolved statement are what its visits leave. -/
theorem Stmt.places_leaves :
    (s : Stmt) → (isTail : Bool) → (env : Env) → (σ : Scopes) → σ.typed = env →
      Leaves r ((s.resolve r ret env isTail).value.1.places r σ)
        (s.resolve r ret env isTail).value.2 (s.visits r ret env isTail)
  | .letVar _ name ty _ init, _, env, σ, hσ => by
    simp only [Stmt.resolve, Traced.value_bind, Traced.value_pure, Stmt.places, Stmt.visits]
    exact .last (.visit? hσ _ init (.pure (congrArg (Scope.declare · name _) hσ)))
  | .assign _ target value, _, env, σ, hσ => by
    simp only [Stmt.resolve, Traced.value_bind, Traced.value_pure, Stmt.places, Stmt.visits]
    exact .visit hσ none target (.last (.visit hσ _ value (.pure hσ)))
  | .ret _ value, _, env, σ, hσ => by
    simp only [Stmt.resolve, Traced.value_bind, Traced.value_pure, Stmt.places, Stmt.visits]
    exact .last (.visit? hσ _ value (.pure hσ))
  | .ifElse _ cond thenBlock elseBlock, _, env, σ, hσ => by
    simp only [Stmt.resolve, Traced.value_bind, Traced.value_pure, Stmt.places, Stmt.visits]
    have hthen := thenBlock.places_leaves false env σ hσ
    exact .visit hσ none cond (hthen.bind (Block.places?_leaves elseBlock env _ hthen.typed))
  | .whileLoop _ cond body, _, env, σ, hσ => by
    simp only [Stmt.resolve, Traced.value_bind, Traced.value_pure, Stmt.places, Stmt.visits]
    exact .visit hσ none cond (body.places_leaves false env σ hσ)
  | .forEach _ var iterable body, _, env, σ, hσ => by
    simp only [Stmt.resolve, Traced.value_bind, Traced.value_pure, Stmt.places, Stmt.visits]
    exact .visit hσ none iterable (.leave hσ false (body.places_leaves false _ _
      (congrArg (fun env : Env => env.push.declare var _) hσ)))
  | .switch _ scrutinee cases, _, env, σ, hσ => by
    simp only [Stmt.resolve, Traced.value_bind, Traced.value_pure, Stmt.places, Stmt.visits]
    exact .visit hσ none scrutinee (SwitchCase.placesList_leaves cases env _ σ hσ)
  | .breakLoop _, _, env, σ, hσ | .continueLoop _, _, env, σ, hσ => by
    simp only [Stmt.resolve, Traced.value_pure, Stmt.places, Stmt.visits]
    exact .pure hσ
  | .expr e, isTail, env, σ, hσ => by
    simp only [Stmt.resolve, Traced.value_bind, Traced.value_pure, Stmt.places, Stmt.visits]
    exact .last (.visit hσ _ e (.pure hσ))
  | .block body, _, env, σ, hσ => by
    simp only [Stmt.resolve, Traced.value_bind, Traced.value_pure, Stmt.places, Stmt.visits]
    exact body.places_leaves false env σ hσ

/-- Which scope statements end with does not matter after their block. -/
theorem Stmt.placesList_leaves :
    (ss : List Stmt) → (env : Env) → (σ : Scopes) → σ.typed = env →
      ∃ env', Leaves r (Stmt.placesList r σ (Stmt.resolveList r ret env ss).value) env'
        (Stmt.visitsList r ret env ss)
  | [], env, _, hσ => ⟨env, .pure hσ⟩
  | s :: ss, env, σ, hσ => by
    simp only [Stmt.resolveList, Traced.value_bind, Traced.value_pure, Stmt.placesList,
      Stmt.visitsList]
    have hs := s.places_leaves false env σ hσ
    obtain ⟨env', hss⟩ := Stmt.placesList_leaves ss _ _ hs.typed
    exact ⟨env', hs.bind hss⟩

/-- A resolved block leaves the visits of the block. -/
theorem Block.places_leaves :
    (body : Block) → (inline : Bool) → (env : Env) → (σ : Scopes) → σ.typed = env →
      Leaves r ((body.resolve r ret env).value.places r σ inline) env (body.visits r ret env)
  | ⟨_, stmts⟩, inline, env, σ, hσ => by
    simp only [Block.resolve, Traced.value_bind, Traced.value_pure, Block.places, Block.visits]
    obtain ⟨_, hstmts⟩ := Stmt.placesList_leaves stmts _ (σ.enter inline) (congrArg Scope.push hσ)
    exact .leave hσ inline hstmts

/-- A resolved optional block leaves the visits of the block. -/
theorem Block.places?_leaves :
    (body : Option Block) → (env : Env) → (σ : Scopes) → σ.typed = env →
      Leaves r (Block.places? r σ (Block.resolve? r ret env body).value) env
        (Block.visits? r ret env body)
  | none, _, _, hσ => .pure hσ
  | some body, env, σ, hσ => by
    simp only [Block.resolve?, Traced.value_bind, Traced.value_pure, Block.places?, Block.visits?]
    exact body.places_leaves _ env σ hσ

/-- Resolved cases leave the visits of the cases. -/
theorem SwitchCase.placesList_leaves :
    (cases : List SwitchCase) → (env : Env) → (scrutineeTy : Option Ty) → (σ : Scopes) →
      σ.typed = env →
      Leaves r (SwitchCase.placesList r σ
        (SwitchCase.resolveList r ret env scrutineeTy cases).value) env
        (SwitchCase.visitsList r ret env scrutineeTy cases)
  | [], _, _, _, hσ => .pure hσ
  | ⟨_, value, body, _⟩ :: cases, env, scrutineeTy, σ, hσ => by
    simp only [SwitchCase.resolveList, Traced.value_bind, Traced.value_pure, SwitchCase.placesList,
      SwitchCase.visitsList]
    obtain ⟨_, hbody⟩ := Stmt.placesList_leaves body env.push
      (σ.enter (isEmptyCase (Stmt.resolveList r ret env.push body).value)) (congrArg Scope.push hσ)
    have hleave := Leaves.leave hσ (isEmptyCase (Stmt.resolveList r ret env.push body).value) hbody
    have hcases := hleave.bind (f := fun σ => SwitchCase.placesList r σ _)
      (SwitchCase.placesList_leaves cases env scrutineeTy _ hleave.typed)
    rw [Traced.bind_assoc] at hcases
    exact .visit? hσ scrutineeTy value hcases

end

/-- The resolved body of a function leaves the visits of the body. -/
theorem Stmt.placesBody_leaves (ss : List Stmt) :
    ∀ (env : Env) (σ : Scopes), σ.typed = env →
      ∃ env', Leaves r (Stmt.placesList r σ (Stmt.resolveBody r ret env ss).value) env'
        (Stmt.visitsBody r ret env ss) := by
  induction ss with
  | nil => exact fun env _ hσ => ⟨env, .pure hσ⟩
  | cons s ss ih =>
    intro env σ hσ
    have hs := fun isTail => s.places_leaves r ret isTail env σ hσ
    cases ss with
    | nil =>
      simp only [Stmt.resolveBody, Traced.value_bind, Traced.value_pure,
        Stmt.placesList_singleton, Stmt.visitsBody]
      exact ⟨_, hs _⟩
    | cons s' ss =>
      rw [Stmt.resolveBody_cons r env ret s (List.cons_ne_nil _ _),
        Stmt.visitsBody_cons r ret env s (List.cons_ne_nil _ _)]
      simp only [Traced.value_bind, Traced.value_pure, Stmt.placesList]
      obtain ⟨env', hss⟩ := ih _ _ (hs false).typed
      exact ⟨env', (hs false).bind hss⟩

end

/-! ## Functions and programs -/

/-- The faults of a function are those of its visits. -/
theorem FunctionDecl.faults_resolve (r : Registry) (owner : Option String) (f : FunctionDecl) :
    faults (f.resolve r owner) = (f.visits r owner).filterMap (Visit.fault? r) := by
  rw [FunctionDecl.resolve, faults_bind, faults_pure, List.append_nil, Stmt.faults_resolveBody]
  rfl

/-- The places of a resolved function are what its visits leave. -/
theorem FunctionDecl.visits_perm (r : Registry) (owner : Option String) (f : FunctionDecl) :
    ((f.visits r owner).map (Visit.result r)).Perm
      (((f.resolve r owner).value.places r owner).map Place.typed) := by
  obtain ⟨_, h⟩ := Stmt.placesBody_leaves r (r.normalize f.ret) f.body.stmts (f.env r owner)
    (f.scopes r owner) rfl
  exact h.places

/-- The faults of a loop are those of its rounds in order. -/
theorem Resolving.faults_mapM {α β : Type} (g : α → Resolving β) (xs : List α) :
    faults (xs.mapM g) = xs.flatMap fun x => faults (g x) := by
  induction xs with
  | nil => rfl
  | cons x xs ih =>
    rw [Traced.mapM_cons, faults_bind, faults_bind, faults_pure, List.append_nil, ih,
      List.flatMap_cons]

/-- The faults of a declaration are those of its visits. -/
theorem Decl.faults_resolve (r : Registry) (d : Decl) :
    faults (d.resolve r) = (d.visits r).filterMap (Visit.fault? r) := by
  cases d with
  | function f =>
    rw [Decl.resolve, faults_bind, faults_pure, List.append_nil, f.faults_resolve]
    rfl
  | impl b =>
    rw [Decl.resolve, Decl.visits, faults_bind, faults_pure, List.append_nil, faults_mapM,
      List.filterMap_flatMap]
    exact List.flatMap_congr fun f _ => f.faults_resolve r (some b.target)
  | _ => rfl

/-- The faults of a program are those of its visits. -/
theorem Program.faults_resolve (p : Program) :
    faults p.resolve = p.visits.filterMap (Visit.fault? (.ofProgram p)) := by
  rw [Program.resolve, Program.visits, faults_bind, faults_pure, List.append_nil, faults_mapM,
    List.filterMap_flatMap]
  exact List.flatMap_congr fun d _ => d.faults_resolve _

/-- The visits of a program are those of its bodies. -/
theorem Program.mem_visits {p : Program} {v : Visit} :
    v ∈ p.visits ↔
      ∃ owned ∈ p.ownedBodies, v ∈ owned.2.visits (.ofProgram p) owned.1 := by
  simp only [Program.visits, Program.ownedBodies, List.mem_flatMap, List.mem_append, List.mem_map]
  constructor
  · rintro ⟨d, hd, hv⟩
    cases d with
    | function f =>
      exact ⟨(none, f), .inr ⟨f, List.mem_filterMap.2 ⟨_, hd, rfl⟩, rfl⟩, hv⟩
    | impl b =>
      obtain ⟨f, hf, hv⟩ := List.mem_flatMap.1 hv
      exact ⟨(some b.target, f), .inl ⟨b, List.mem_filterMap.2 ⟨_, hd, rfl⟩, f, hf, rfl⟩, hv⟩
    | _ => cases hv
  · rintro ⟨owned, ⟨b, hb, f, hf, rfl⟩ | ⟨f, hf, rfl⟩, hv⟩
    · obtain ⟨d, hd, himpl⟩ := List.mem_filterMap.1 hb
      refine ⟨d, hd, ?_⟩
      cases d with
      | impl b' =>
        cases himpl
        exact List.mem_flatMap.2 ⟨f, hf, hv⟩
      | _ => cases himpl
    · obtain ⟨d, hd, hfunction⟩ := List.mem_filterMap.1 hf
      refine ⟨d, hd, ?_⟩
      cases d with
      | function f' =>
        cases hfunction
        exact hv
      | _ => cases hfunction

end Oxidize
