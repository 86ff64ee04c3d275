import Oxidize.Emit.Stmt
import Oxidize.Proofs.Typing.Resolved

/-!
# The builtin that a pass takes a call for

Each of type resolution, the usage walk and rendering decides at a method call which namespace it is
on and which builtin it means. They take the local variables from scopes of their own, and the type
of the receiver from different places: type resolution from the object it has just resolved, the
usage walk from what was recorded, and rendering from that expanded once more.
`Expr.resolvedChoice?`, `Expr.walkedChoice?` and `Expr.renderedChoice?` are these decisions. A pass
knows nothing else of the builtin: `Expr.resolveBy`, `Expr.usageBy` and `Expr.renderBy` do what the
pass does, given the decision.
-/

namespace Oxidize

/-- What a pass takes a method call for: the namespace it is on, and the builtin it means. -/
structure BuiltinChoice where
  ns : Option Namespace
  dispatch : Option Dispatch
deriving DecidableEq

namespace BuiltinChoice

/-- What type resolution finds at a method call on a value. -/
def report (c : BuiltinChoice) (recv : Ty) (method : String) (span : Span) : Resolving Unit :=
  match c.dispatch with
  | some d => do
    .tell (.note (.dispatched method recv d.table d.ambiguous))
    .tellIf d.ambiguous (.fault ⟨.ambiguousMethod method, span⟩)
  | none => return ()

/-- The types that the arguments of a method call on a value flow into. -/
def params (c : BuiltinChoice) (r : Registry) (recv : Ty) (method : String) (count : Nat) :
    List Ty :=
  match c.dispatch with
  | some d =>
    match d.rule.elementArgs, recv.element? with
    | true, some elem => List.replicate count elem
    | _, _ => []
  | none => ((r.methodOf? recv method).map (·.params)).getD []

/-- Whether a method call on a value changes its receiver. -/
def mutates (c : BuiltinChoice) (r : Option Registry) (recv : Option Ty) (method : String) : Bool :=
  match c.dispatch with
  | some d => d.rule.mutatesReceiver
  | none =>
    match r, recv.bind Ty.nominalName? with
    | some r, some name => (r.method? name method).any fun sig => sig.receiver == some .byMut
    | _, _ => false

end BuiltinChoice

namespace Expr

/-! ## Decisions -/

/-- The choice of type resolution, unless the call builds a variant. -/
def resolvedChoice? (r : Registry) (env : Env) (e : Expr) : Option BuiltinChoice :=
  match e.kind with
  | .methodCall object method ns _ _ =>
    match calledEnum? r env ns object with
    | some _ => none
    | none =>
      let n := namespaceOf? ns object env.isLocal
      let recv := r.normalize (object.resolve r env none).value.tyOrVoid
      some ⟨n, Dispatch.of? n (some recv) method⟩
  | _ => none

/-- The choice of the usage walk. -/
def walkedChoice? (b : Bindings) (e : Expr) : Option BuiltinChoice :=
  match e.kind with
  | .methodCall object method ns _ objectTy =>
    let n := namespaceOf? ns object b.isLocal
    some ⟨n, Dispatch.of? n (objectTy <|> object.ty) method⟩
  | _ => none

/-- The choice of rendering. -/
def renderedChoice? (r : Registry) (b : Bindings) (e : Expr) : Option BuiltinChoice :=
  match e.kind with
  | .methodCall object method ns _ objectTy =>
    let n := namespaceOf? ns object b.isLocal
    some ⟨n, Dispatch.of? n (objectTy? r objectTy object) method⟩
  | _ => none

/-! ## Passes given the decision -/

/-- The kind of a method call after type resolution, given what it means. -/
def resolveBy (r : Registry) (env : Env) (c : BuiltinChoice) (e : Expr) : Resolving ExprKind :=
  match e.kind with
  | .methodCall object method ns args objectTy =>
    match c.ns with
    | some n => do
      .tellIf c.dispatch.isNone (.note (.noMember n method))
      return .methodCall object method (some n.ident) (← Expr.resolveList r env [] args) objectTy
    | none => do
      let object ← object.resolve r env none
      let recv := r.normalize object.tyOrVoid
      c.report recv method e.span
      let params := c.params r recv method args.length
      return .methodCall object method ns (← Expr.resolveList r env (params.map r.normalize) args)
        (some recv)
  | kind => return kind

/-- What a method call does to variables, given what it means. -/
def usageBy (r : Option Registry) (b : Bindings) (c : BuiltinChoice) (e : Expr) :
    List UsageEvent :=
  match e.kind with
  | .methodCall object method _ args objectTy =>
    match c.ns with
    | some n => Expr.usageList r b (.ofMethodArgs (some n)) args
    | none =>
      (if c.mutates r (objectTy <|> object.ty) method then mutationEvents b object else []) ++
        (object.usage r b .borrow ++ Expr.usageList r b (.ofMethodArgs none) args)
  | _ => []

/-- The text of a method call, given what it means. -/
def renderBy (cx : FnContext) (b : Bindings) (c : BuiltinChoice) (e : Expr) : Rendering String :=
  match e.kind with
  | .methodCall object method _ args objectTy =>
    match c.ns with
    | some n => do
      let codes ← Expr.renderArgs cx b (.ofMethodArgs (some n)) [] args
      match c.dispatch with
      | some d => return d.rule.render ⟨none, codes, args.map (·.tyOrVoid)⟩
      | none => return callText (n.ident ++ "::" ++ Name.value method) codes
    | none => do
      let recvTy := objectTy? cx.registry objectTy object
      let code ← object.render cx b .borrow
      let recv := receiverText object code
      match c.dispatch with
      | some d =>
        let params := match d.rule.elementArgs, recvTy.bind Ty.element? with
          | true, some elem => List.replicate args.length elem
          | _, _ => []
        let codes ← Expr.renderArgs cx b .value params args
        return d.rule.render ⟨some recv, codes, args.map (·.tyOrVoid)⟩
      | none =>
        let sig := recvTy.bind (cx.registry.methodOf? · method)
        let codes ← Expr.renderArgs cx b .value ((sig.map (·.params)).getD []) args
        return callText (recv ++ "." ++ Name.value method) codes
  | _ => return ""

variable {e : Expr} {c : BuiltinChoice}

/-- Type resolution acts on a method call by its choice. -/
theorem resolve_eq_resolveBy {r : Registry} {env : Env} (h : e.resolvedChoice? r env = some c)
    (expected : Option Ty) : e.kind.resolve r env e.span expected = e.resolveBy r env c := by
  obtain ⟨span, kind, ty⟩ := e
  cases kind with
  | methodCall object method ns args objectTy =>
    rw [resolvedChoice?] at h
    cases hc : calledEnum? r env ns object with
    | some name => simp [hc] at h
    | none =>
      simp only [hc, Option.some.injEq] at h
      subst h
      cases hns : namespaceOf? ns object env.isLocal with
      | some n =>
        rw [ExprKind.resolve_onNamespace hc hns, resolveBy]
        rfl
      | none =>
        rw [ExprKind.resolve_onValue hc hns, resolveBy]
        rfl
  | _ => cases h

/-- The usage walk acts on a method call by its choice. -/
theorem usage_eq_usageBy {b : Bindings} (h : e.walkedChoice? b = some c) (r : Option Registry)
    (pos : ReadPosition) : e.usage r b pos = e.usageBy r b c := by
  obtain ⟨span, kind, ty⟩ := e
  cases kind with
  | methodCall object method ns args objectTy =>
    obtain rfl := Option.some.inj h
    rw [Expr.usage, usageBy]
    dsimp only
    cases namespaceOf? ns object b.isLocal with
    | some n => rfl
    | none => rfl
  | _ => cases h

/-- Rendering acts on a method call by its choice. -/
theorem render_eq_renderBy {cx : FnContext} {b : Bindings}
    (h : e.renderedChoice? cx.registry b = some c) (pos : ReadPosition) :
    e.render cx b pos = e.renderBy cx b c := by
  obtain ⟨span, kind, ty⟩ := e
  cases kind with
  | methodCall object method ns args objectTy =>
    obtain rfl := Option.some.inj h
    rw [Expr.render, renderBy]
    dsimp only
    cases namespaceOf? ns object b.isLocal with
    | some n => rfl
    | none => rfl
  | _ => cases h

/-- Whether a call is emitted as a statement is told by the choice of rendering. -/
theorem isStatementBuiltin_eq {cx : FnContext} {b : Bindings}
    (h : e.renderedChoice? cx.registry b = some c) :
    isStatementBuiltin cx b e = c.dispatch.any (·.rule.isStatement) := by
  obtain ⟨span, kind, ty⟩ := e
  cases kind with
  | methodCall object method ns args objectTy =>
    obtain rfl := Option.some.inj h
    rw [isStatementBuiltin]
    dsimp only
    cases namespaceOf? ns object b.isLocal with
    | some n => rfl
    | none => rfl
  | _ => cases h

end Expr

end Oxidize
