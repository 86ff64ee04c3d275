import Oxidize.Emit.Program
import Oxidize.Proofs.Visited

/-!
# The literals that emission fails on

Emission fails on an aggregate literal without a target, and on nothing else. `Program.rendered` lists
the expressions that are rendered, in the order of emission: the method blocks come before the
functions, a body is rendered from left to right, and an expression comes before its parts. Three
kinds of parts are left out: the object of a call on a namespace, that of a constant of one, and the
data of a variant past its last field. A name that is assigned to and a `null` that is compared with
are listed as any other expression is, though they are written in ways of their own.

`FailsOn` says of an emission that it fails with the first pending literal among such a list, and
succeeds where there is none. It has a rule for each way in which emissions are put together, so
`Expr.render_failsOn` and `Stmt.emit_failsOn` follow the recursions of rendering and emission, and
`Program.emit_error_iff` is the case of a program.

Which names are local decides whether an object is a namespace. It does not matter here: without a
tag only a name is one, and a name is rendered without fail.
-/

namespace Oxidize

open Emitting (rendering line append note declare indented framed captured)

/-! ## Rendered expressions -/

mutual

/-- An expression and the expressions inside it that are rendered, given the local variables. -/
def Expr.rendered (r : Registry) (isLocal : String → Bool) : Expr → List Expr
  | ⟨span, kind, ty⟩ => ⟨span, kind, ty⟩ :: kind.rendered r isLocal

/-- The expressions inside an expression of the given kind that are rendered. -/
def ExprKind.rendered (r : Registry) (isLocal : String → Bool) : ExprKind → List Expr
  | .literal _ | .ident _ => []
  | .unary _ expr | .cast expr _ => expr.rendered r isLocal
  | .binary _ left right => left.rendered r isLocal ++ right.rendered r isLocal
  | .call _ args => Expr.renderedList r isLocal args
  | .methodCall object _ ns args _ =>
    match namespaceOf? ns object isLocal with
    | some _ => Expr.renderedList r isLocal args
    | none => object.rendered r isLocal ++ Expr.renderedList r isLocal args
  | .index object index => object.rendered r isLocal ++ index.rendered r isLocal
  | .field object field _ =>
    match namespaceConstant? object field isLocal with
    | some _ => []
    | none => object.rendered r isLocal
  | .array items | .tuple items => Expr.renderedList r isLocal items
  | .aggregate _ fields => FieldInit.renderedList r isLocal fields
  | .variant _ _ none => []
  | .variant enumName variant (some data) =>
    match r.variantShape? enumName variant with
    | some (.struct decls) => Expr.renderedFirst r isLocal decls.length data
    | _ => Expr.renderedList r isLocal data
  | .ternary cond thenExpr elseExpr =>
    cond.rendered r isLocal ++ (thenExpr.rendered r isLocal ++ elseExpr.rendered r isLocal)

/-- The expressions inside a list of expressions that are rendered, the members included. -/
def Expr.renderedList (r : Registry) (isLocal : String → Bool) : List Expr → List Expr
  | [] => []
  | e :: es => e.rendered r isLocal ++ Expr.renderedList r isLocal es

/-- The expressions that are rendered of so many members at the head of a list. -/
def Expr.renderedFirst (r : Registry) (isLocal : String → Bool) : Nat → List Expr → List Expr
  | n + 1, e :: es => e.rendered r isLocal ++ Expr.renderedFirst r isLocal n es
  | _, _ => []

/-- The expressions inside the fields of an aggregate literal that are rendered. -/
def FieldInit.renderedList (r : Registry) (isLocal : String → Bool) : List FieldInit → List Expr
  | [] => []
  | ⟨_, value⟩ :: fields => value.rendered r isLocal ++ FieldInit.renderedList r isLocal fields

end

/-- The expressions inside an expression that are rendered, where the given names are local. -/
def Expr.renderedIn (r : Registry) (locals : List String) (e : Expr) : List Expr :=
  e.rendered r locals.contains

/-- The expressions inside an optional expression that are rendered. -/
def Expr.renderedIn? (r : Registry) (locals : List String) (e : Option Expr) : List Expr :=
  e.elim [] (Expr.renderedIn r locals)

mutual

/-- The expressions inside a statement that are rendered, where the given names are local. -/
def Stmt.rendered (r : Registry) (locals : List String) : Stmt → List Expr
  | .letVar _ _ _ _ init => Expr.renderedIn? r locals init
  | .assign _ target value => target.renderedIn r locals ++ value.renderedIn r locals
  | .ret _ value => Expr.renderedIn? r locals value
  | .ifElse _ cond thenBlock elseBlock =>
    cond.renderedIn r locals ++ (thenBlock.rendered r locals ++ Block.rendered? r locals elseBlock)
  | .whileLoop _ cond body => cond.renderedIn r locals ++ body.rendered r locals
  | .forEach _ var iterable body => iterable.renderedIn r locals ++ body.rendered r (var :: locals)
  | .switch _ scrutinee cases =>
    scrutinee.renderedIn r locals ++ SwitchCase.renderedList r locals cases
  | .breakLoop _ | .continueLoop _ => []
  | .expr e => e.renderedIn r locals
  | .block body => body.rendered r locals

/-- The expressions inside statements that are rendered. -/
def Stmt.renderedList (r : Registry) (locals : List String) : List Stmt → List Expr
  | [] => []
  | s :: ss => s.rendered r locals ++ Stmt.renderedList r (s.declares ++ locals) ss

/-- The expressions inside a block that are rendered. -/
def Block.rendered (r : Registry) (locals : List String) : Block → List Expr
  | ⟨_, stmts⟩ => Stmt.renderedList r locals stmts

/-- The expressions inside an optional block that are rendered. -/
def Block.rendered? (r : Registry) (locals : List String) : Option Block → List Expr
  | none => []
  | some body => body.rendered r locals

/-- The expressions inside the cases of a switch that are rendered. -/
def SwitchCase.renderedList (r : Registry) (locals : List String) : List SwitchCase → List Expr
  | [] => []
  | ⟨_, value, body, _⟩ :: cases =>
    Expr.renderedIn? r locals value ++
      (Stmt.renderedList r locals body ++ SwitchCase.renderedList r locals cases)

end

/-- The expressions of a function that are rendered, in order. -/
def FunctionDecl.rendered (r : Registry) (f : FunctionDecl) : List Expr :=
  Stmt.renderedList r (f.signatureVars.map (·.1)) f.body.stmts

/-- The expressions of a program that are rendered, in order. -/
def Program.rendered (p : Program) (r : Registry) : List Expr :=
  p.bodies.flatMap (·.rendered r)

/-- An aggregate literal without a target. -/
def Expr.isPending (e : Expr) : Bool :=
  match e.kind with
  | .aggregate .pending _ => true
  | _ => false

/-- The aggregate literals without a target among expressions. -/
def pendingIn (nodes : List Expr) : List Expr :=
  nodes.filter Expr.isPending

/-- Pending literals are collected from left to right. -/
@[simp] theorem pendingIn_append (a b : List Expr) :
    pendingIn (a ++ b) = pendingIn a ++ pendingIn b :=
  List.filter_append ..

/-- A node that is no pending literal is skipped. -/
theorem pendingIn_cons {e : Expr} (h : e.isPending = false) (nodes : List Expr) :
    pendingIn (e :: nodes) = pendingIn nodes := by
  rw [pendingIn, List.filter_cons, h]
  rfl

/-- A namespace without a tag is a name, and there is no literal in a name. -/
theorem pendingIn_of_namespaceOf? {object : Expr} {isLocal : String → Bool} {n : Namespace}
    (h : namespaceOf? none object isLocal = some n) (r : Registry) (isLocal' : String → Bool) :
    pendingIn (object.rendered r isLocal') = [] := by
  obtain ⟨span, name, ty, rfl⟩ := ident_of_namespaceOf? h
  rfl

/-- The object of a constant is the name of a namespace, so nothing is pending in it. -/
theorem pendingIn_of_namespaceConstant? {object : Expr} {field : String} {isLocal : String → Bool}
    {c : Constant} (h : namespaceConstant? object field isLocal = some c) (r : Registry)
    (isLocal' : String → Bool) : pendingIn (object.rendered r isLocal') = [] := by
  obtain ⟨n, hn, -⟩ := Option.bind_eq_some_iff.1 h
  exact pendingIn_of_namespaceOf? hn r isLocal'

/-- The pending literals inside a call are the same whichever names are local: these decide only
whether a name is the object. -/
theorem ExprKind.pendingIn_methodCall (r : Registry) (isLocal isLocal' : String → Bool)
    (object : Expr) (method : String) (ns : Option String) (args : List Expr)
    (objectTy : Option Ty) :
    pendingIn (ExprKind.rendered r isLocal (.methodCall object method ns args objectTy)) =
      match namespaceOf? ns object isLocal' with
      | some _ => pendingIn (Expr.renderedList r isLocal args)
      | none => pendingIn (object.rendered r isLocal ++ Expr.renderedList r isLocal args) := by
  rw [ExprKind.rendered]
  cases ns with
  | some tag =>
    change pendingIn (match Namespace.ofIdent? tag with | some _ => _ | none => _) =
      match Namespace.ofIdent? tag with | some _ => _ | none => _
    cases Namespace.ofIdent? tag <;> rfl
  | none =>
    cases hn : namespaceOf? none object isLocal with
    | some _ =>
      cases namespaceOf? none object isLocal' with
      | some _ => rfl
      | none => simp [pendingIn_of_namespaceOf? hn]
    | none =>
      cases hn' : namespaceOf? none object isLocal' with
      | some _ => simp [pendingIn_of_namespaceOf? hn']
      | none => rfl

/-- What is pending in an access to a field is pending in its object, which a constant does not have;
this does not depend on which variables are in scope. -/
theorem ExprKind.pendingIn_field (r : Registry) (isLocal isLocal' : String → Bool)
    (object : Expr) (field : String) (objectTy : Option Ty) :
    pendingIn (ExprKind.rendered r isLocal (.field object field objectTy)) =
      match namespaceConstant? object field isLocal' with
      | some _ => []
      | none => pendingIn (object.rendered r isLocal) := by
  rw [ExprKind.rendered]
  cases hc : namespaceConstant? object field isLocal with
  | some _ =>
    cases namespaceConstant? object field isLocal' with
    | some _ => rfl
    | none => exact (pendingIn_of_namespaceConstant? hc r isLocal).symm
  | none =>
    cases hc' : namespaceConstant? object field isLocal' with
    | some _ => exact pendingIn_of_namespaceConstant? hc' r isLocal
    | none => rfl

/-! ## Failing renderings -/

/-- The rendering fails with the first pending literal among the expressions, and succeeds if there is
none. -/
def Rendering.FailsOn {α : Type} (x : Rendering α) (nodes : List Expr) : Prop :=
  ∀ reads, match (pendingIn nodes).head? with
    | some e => x.run reads = .error ⟨e.span⟩
    | none => ∃ a reads', x.run reads = .ok (a, reads')

namespace Rendering.FailsOn

variable {α β : Type} {x : Rendering α} {f : α → Rendering β} {nodes nodes' : List Expr}

/-- A result that is given cannot fail. -/
theorem pure (a : α) : Rendering.FailsOn (Pure.pure a) [] :=
  fun reads => ⟨a, reads, rfl⟩

/-- Two renderings in a row fail on the first pending literal of both. -/
theorem bind (hx : Rendering.FailsOn x nodes) (hf : ∀ a, Rendering.FailsOn (f a) nodes') :
    Rendering.FailsOn (x >>= f) (nodes ++ nodes') := by
  intro reads
  have hfirst := hx reads
  rw [pendingIn_append, List.head?_append]
  cases hhead : (pendingIn nodes).head? with
  | some e =>
    rw [hhead] at hfirst
    rw [Option.some_or, StateT.run_bind, hfirst]
    rfl
  | none =>
    rw [hhead] at hfirst
    obtain ⟨a, reads', hrun⟩ := hfirst
    rw [Option.none_or, Rendering.run_bind hrun]
    exact hf a reads'

/-- What is done with the text of a rendering does not fail. -/
theorem map (hx : Rendering.FailsOn x nodes) (hf : ∀ a, Rendering.FailsOn (f a) []) :
    Rendering.FailsOn (x >>= f) nodes := by
  have h := hx.bind hf
  rwa [List.append_nil] at h

/-- Only the pending literals among the expressions count. -/
theorem congr (hx : Rendering.FailsOn x nodes) (h : pendingIn nodes = pendingIn nodes') :
    Rendering.FailsOn x nodes' := by
  intro reads
  rw [← h]
  exact hx reads

/-- An expression that is no pending literal fails by its parts. -/
theorem cons {e : Expr} (hx : Rendering.FailsOn x nodes) (he : e.isPending = false) :
    Rendering.FailsOn x (e :: nodes) :=
  hx.congr (pendingIn_cons he nodes).symm

end Rendering.FailsOn

/-- Reading a variable never fails. -/
theorem readVar_failsOn (cx : FnContext) (b : Bindings) (name : String) (pos : ReadPosition) :
    Rendering.FailsOn (readVar cx b name pos) [] := by
  intro reads
  obtain ⟨text, reads', hrun, -⟩ := readVar_text cx b name pos reads
  exact ⟨text, reads', hrun⟩

/-- Nothing is pending in an identifier. -/
theorem Expr.pendingIn_of_ident? {name : String} (r : Registry) (isLocal : String → Bool) :
    (e : Expr) → e.ident? = some name → pendingIn (e.rendered r isLocal) = []
  | ⟨_, .ident _, _⟩, _ => rfl

/-- Nothing is pending in `null`. -/
theorem Expr.pendingIn_of_isNull {e : Expr} (h : e.isNull = true) (r : Registry)
    (isLocal : String → Bool) : pendingIn (e.rendered r isLocal) = [] := by
  obtain ⟨span, kind, ty⟩ := e
  unfold Expr.isNull at h
  split at h
  · next hk =>
    subst hk
    rfl
  · cases h

section
variable {cx : FnContext} {b : Bindings} (isLocal : String → Bool)

mutual

/-- Rendering an expression fails with the first pending literal among what is rendered. -/
theorem Expr.render_failsOn :
    (e : Expr) → (pos : ReadPosition) →
      Rendering.FailsOn (e.render cx b pos) (e.rendered cx.registry isLocal)
  | ⟨_, .literal value, _⟩, _ => by
    rw [Expr.render, Expr.rendered]
    exact .cons (.pure _) rfl
  | ⟨_, .ident name, _⟩, pos => by
    rw [Expr.render, Expr.rendered]
    exact .cons (readVar_failsOn cx b name pos) rfl
  | ⟨_, .unary _ expr, _⟩, _ | ⟨_, .cast expr _, _⟩, _ => by
    rw [Expr.render, Expr.rendered]
    exact .cons ((expr.render_failsOn .value).map fun _ => .pure _) rfl
  | ⟨_, .binary op left right, _⟩, _ => by
    have hl := left.render_failsOn (.ofOperands op left right)
    have hr := right.render_failsOn (.ofOperands op left right)
    rw [Expr.render, Expr.rendered, ExprKind.rendered]
    refine .cons ?_ rfl
    split
    · exact hl.bind fun _ => hr.map fun _ => .pure _
    · split
      · next hnull =>
        refine (hl.map fun _ => .pure _).congr ?_
        rw [pendingIn_append, right.pendingIn_of_isNull (Bool.and_eq_true_iff.1 hnull).2,
          List.append_nil]
      · split
        · next hnull =>
          refine (hr.map fun _ => .pure _).congr ?_
          rw [pendingIn_append, left.pendingIn_of_isNull (Bool.and_eq_true_iff.1 hnull).2,
            List.nil_append]
        · exact hl.bind fun _ => hr.map fun _ => .pure _
  | ⟨_, .call callee args, _⟩, _ => by
    rw [Expr.render, Expr.rendered]
    exact .cons ((Expr.renderArgs_failsOn args .value _).map fun _ => .pure _) rfl
  | ⟨_, .methodCall object method ns args objectTy, _⟩, _ => by
    have hobject := object.render_failsOn .borrow
    have hargs := fun pos => Expr.renderArgs_failsOn args pos
    rw [Expr.render, Expr.rendered]
    refine .cons ?_ rfl
    have hrendered := ExprKind.pendingIn_methodCall cx.registry isLocal b.isLocal object method ns
      args objectTy
    cases hns : namespaceOf? ns object b.isLocal with
    | some n =>
      rw [hns] at hrendered
      refine ((hargs _ _).map fun _ => ?_).congr hrendered.symm
      split <;> exact .pure _
    | none =>
      rw [hns] at hrendered
      refine (hobject.bind fun _ => ?_).congr hrendered.symm
      split <;> exact (hargs _ _).map fun _ => .pure _
  | ⟨_, .index object index, _⟩, _ => by
    rw [Expr.render, Expr.rendered]
    exact .cons ((object.render_failsOn .borrow).bind fun _ =>
      (index.render_failsOn .value).map fun _ => .pure _) rfl
  | ⟨_, .field object field objectTy, _⟩, _ => by
    have hobject := object.render_failsOn .borrow
    have hrendered := ExprKind.pendingIn_field cx.registry isLocal b.isLocal object field objectTy
    rw [Expr.render, Expr.rendered]
    refine .cons ?_ rfl
    cases hc : namespaceConstant? object field b.isLocal with
    | some c =>
      rw [hc] at hrendered
      exact Rendering.FailsOn.congr (.pure _) hrendered.symm
    | none =>
      rw [hc] at hrendered
      exact (hobject.map fun _ => .pure _).congr hrendered.symm
  | ⟨_, .array items, _⟩, _ => by
    rw [Expr.render, Expr.rendered]
    exact .cons ((Expr.renderArgs_failsOn items .value _).map fun _ => .pure _) rfl
  | ⟨_, .tuple items, _⟩, _ => by
    unfold Expr.render
    rw [Expr.rendered]
    exact .cons ((Expr.renderArgs_failsOn items .value _).map fun _ => .pure _) rfl
  | ⟨_, .aggregate .pending _, _⟩, _ => by
    rw [Expr.render, Expr.rendered]
    exact fun _ => rfl
  | ⟨_, .aggregate (.named name) fields, _⟩, _ => by
    rw [Expr.render, Expr.rendered]
    exact .cons ((FieldInit.renderList_failsOn name fields).map fun _ => .pure _) rfl
  | ⟨_, .variant _ _ none, _⟩, _ => by
    rw [Expr.render, Expr.rendered]
    exact .cons (.pure _) rfl
  | ⟨_, .variant enumName variant (some data), _⟩, _ => by
    rw [Expr.render, Expr.rendered, ExprKind.rendered]
    refine .cons ?_ rfl
    cases hshape : cx.registry.variantShape? enumName variant with
    | none =>
      exact (Expr.renderArgs_failsOn data .value _).map fun _ => .pure _
    | some shape =>
      cases shape with
      | struct decls => exact (Expr.renderFields_failsOn data decls).map fun _ => .pure _
      | tuple | unit => exact (Expr.renderArgs_failsOn data .value _).map fun _ => .pure _
  | ⟨_, .ternary cond thenExpr elseExpr, _⟩, pos => by
    rw [Expr.render, Expr.rendered]
    exact .cons ((cond.render_failsOn .borrow).bind fun _ =>
      (thenExpr.render_failsOn pos).bind fun _ =>
        (elseExpr.render_failsOn pos).map fun _ => .pure _) rfl

/-- Arguments fail on the first pending literal among them. -/
theorem Expr.renderArgs_failsOn :
    (es : List Expr) → (pos : ReadPosition) → (params : List Ty) →
      Rendering.FailsOn (Expr.renderArgs cx b pos params es)
        (Expr.renderedList cx.registry isLocal es)
  | [], _, _ => by
    rw [Expr.renderArgs]
    exact .pure _
  | e :: es, pos, params => by
    rw [Expr.renderArgs, Expr.renderedList]
    exact (e.render_failsOn pos).bind fun _ =>
      (Expr.renderArgs_failsOn es pos _).map fun _ => .pure _

/-- The data of a variant fails on the first pending literal in what is written for its fields. -/
theorem Expr.renderFields_failsOn :
    (es : List Expr) → (decls : List FieldDecl) →
      Rendering.FailsOn (Expr.renderFields cx b decls es)
        (Expr.renderedFirst cx.registry isLocal decls.length es)
  | [], decls => by
    cases decls <;> exact .pure _
  | _ :: _, [] => .pure _
  | e :: es, decl :: decls => by
    rw [Expr.renderFields, List.length_cons, Expr.renderedFirst]
    exact (e.render_failsOn .value).bind fun _ =>
      (Expr.renderFields_failsOn es decls).map fun _ => .pure _

/-- The fields of an aggregate fail on the first pending literal among their values. -/
theorem FieldInit.renderList_failsOn (struct : String) :
    (fields : List FieldInit) →
      Rendering.FailsOn (FieldInit.renderList cx b struct fields)
        (FieldInit.renderedList cx.registry isLocal fields)
  | [] => by
    rw [FieldInit.renderList]
    exact .pure _
  | ⟨_, value⟩ :: fields => by
    rw [FieldInit.renderList, FieldInit.renderedList]
    exact (value.render_failsOn .value).bind fun _ =>
      (FieldInit.renderList_failsOn struct fields).map fun _ => .pure _

end

end

/-! ## Failing emissions -/

/-- The emission fails with the first pending literal among the expressions, and succeeds if there is
none. -/
def FailsOn {σ α : Type} (x : EStateM PendingLiteral σ α) (nodes : List Expr) : Prop :=
  ∀ st, match (pendingIn nodes).head? with
    | some e => ∃ st', x.run st = .error ⟨e.span⟩ st'
    | none => ∃ a st', x.run st = .ok a st'

namespace FailsOn

variable {σ α β : Type} {x : EStateM PendingLiteral σ α} {f : α → EStateM PendingLiteral σ β}
  {nodes nodes' : List Expr}

/-- A result that is given cannot fail. -/
theorem pure (a : α) : FailsOn (Pure.pure a : EStateM PendingLiteral σ α) [] :=
  fun st => ⟨a, st, rfl⟩

/-- Reading the state cannot fail. -/
theorem get : FailsOn (MonadState.get : EStateM PendingLiteral σ σ) [] :=
  fun st => ⟨st, st, rfl⟩

/-- Changing the state cannot fail. -/
theorem modify (g : σ → σ) : FailsOn (modifyThe σ g : EStateM PendingLiteral σ PUnit) [] :=
  fun st => ⟨⟨⟩, g st, rfl⟩

/-- Two emissions in a row fail on the first pending literal of both. -/
theorem bind (hx : FailsOn x nodes) (hf : ∀ a, FailsOn (f a) nodes') :
    FailsOn (x >>= f) (nodes ++ nodes') := by
  intro st
  have hfirst := hx st
  rw [pendingIn_append, List.head?_append, EStateM.run_bind]
  cases hhead : (pendingIn nodes).head? with
  | some e =>
    rw [hhead] at hfirst
    obtain ⟨st', hrun⟩ := hfirst
    rw [Option.some_or, hrun]
    exact ⟨st', rfl⟩
  | none =>
    rw [hhead] at hfirst
    obtain ⟨a, st', hrun⟩ := hfirst
    rw [Option.none_or, hrun]
    exact hf a st'

/-- What comes before succeeds. -/
theorem after (hx : FailsOn x []) (hf : ∀ a, FailsOn (f a) nodes) : FailsOn (x >>= f) nodes :=
  hx.bind hf

/-- What comes after succeeds. -/
theorem before (hx : FailsOn x nodes) (hf : ∀ a, FailsOn (f a) []) : FailsOn (x >>= f) nodes := by
  have h := hx.bind hf
  rwa [List.append_nil] at h

/-- Only the pending literals among the nodes matter. -/
theorem congr (hx : FailsOn x nodes) (h : pendingIn nodes = pendingIn nodes') :
    FailsOn x nodes' := by
  intro st
  rw [← h]
  exact hx st

/-- A loop fails on the first pending literal of its rounds. -/
theorem forM {ι : Type} {g : ι → EStateM PendingLiteral σ PUnit} {parts : ι → List Expr}
    (xs : List ι) (h : ∀ x, FailsOn (g x) (parts x)) : FailsOn (xs.forM g) (xs.flatMap parts) := by
  induction xs with
  | nil => exact .pure _
  | cons x xs ih =>
    rw [List.flatMap_cons]
    exact (h x).bind fun _ => ih

/-- A loop that collects results fails on the first pending literal of its rounds. -/
theorem mapM {ι : Type} {g : ι → EStateM PendingLiteral σ α} {parts : ι → List Expr}
    (xs : List ι) (h : ∀ x, FailsOn (g x) (parts x)) : FailsOn (xs.mapM g) (xs.flatMap parts) := by
  induction xs with
  | nil => exact .pure _
  | cons x xs ih =>
    rw [List.flatMap_cons, List.mapM_cons]
    exact (h x).bind fun _ => ih.before fun _ => .pure _

/-- An expression rendered under the current bindings. -/
theorem rendering {x : Bindings → Rendering α} (hx : ∀ b, Rendering.FailsOn (x b) nodes) :
    FailsOn (do Emitting.rendering (x (← Emitting.bindings))) nodes := by
  intro st
  have hfirst := hx st.bindings st.reads
  change match (pendingIn nodes).head? with
    | some e => ∃ st', Emitting.rendering (x st.bindings) st = .error ⟨e.span⟩ st'
    | none => ∃ a st', Emitting.rendering (x st.bindings) st = .ok a st'
  unfold Emitting.rendering
  cases hhead : (pendingIn nodes).head? with
  | some e =>
    rw [hhead] at hfirst
    rw [hfirst]
    exact ⟨_, rfl⟩
  | none =>
    rw [hhead] at hfirst
    obtain ⟨a, reads', hrun⟩ := hfirst
    rw [hrun]
    exact ⟨_, _, rfl⟩

/-- Declaring a variable never fails. -/
theorem declare (name : String) : FailsOn (declare name) [] :=
  .after (.after .get fun _ => .pure _) fun _ => .after (.modify _) fun _ => .pure _

/-- Recording a case that falls through never fails. -/
theorem noteFallthrough (pattern : String) : FailsOn (noteFallthrough pattern) [] :=
  .after (.modify _) fun _ => .modify _

/-- Indentation does not change what an emission fails on. -/
theorem indented {x : Emitting Unit} (hx : FailsOn x nodes) : FailsOn (indented x) nodes :=
  .after (.modify _) fun _ => hx.before fun _ => .modify _

/-- A frame for variables does not change what an emission fails on. -/
theorem framed {x : Emitting Unit} (hx : FailsOn x nodes) : FailsOn (framed x) nodes :=
  .after (.modify _) fun _ => hx.before fun _ => .modify _

/-- Capturing lines does not change what an emission fails on. -/
theorem captured {x : Emitting Unit} (hx : FailsOn x nodes) : FailsOn (captured x) nodes :=
  .after .get fun _ => .after (.modify _) fun _ => hx.before fun _ =>
    .after .get fun _ => .after (.modify _) fun _ => .pure _

end FailsOn

/-! ## Statements -/

section
variable {cx : FnContext} (locals : List String)

/-- An expression that is emitted fails on the first pending literal that is rendered for it. -/
theorem emitExpr_failsOn (e : Expr) (pos : ReadPosition) :
    FailsOn (emitExpr cx pos e) (e.renderedIn cx.registry locals) :=
  .rendering fun _ => e.render_failsOn _ pos

/-- A value that is emitted and converted fails on the first pending literal that is rendered for
it. -/
theorem emitValue_failsOn (e : Expr) (expected : Option Ty) :
    FailsOn (emitValue cx expected e) (e.renderedIn cx.registry locals) :=
  .rendering fun _ => (e.render_failsOn _ .value).map fun _ => .pure _

/-- There is no literal in a bare name. -/
theorem emitTarget_failsOn (target : Expr) :
    FailsOn (emitTarget cx target) (target.renderedIn cx.registry locals) := by
  unfold emitTarget
  split
  · next name hname =>
    exact FailsOn.congr (.pure _) (target.pendingIn_of_ident? _ _ hname).symm
  · exact emitExpr_failsOn locals target .borrow

/-- The patterns that are written without rendering an expression are no aggregate literals. -/
theorem emitPattern_failsOn (value : Expr) (scrutineeTy : Ty) :
    FailsOn (emitPattern cx scrutineeTy value) (value.renderedIn cx.registry locals) := by
  obtain ⟨span, kind, ty⟩ := value
  unfold emitPattern
  split
  all_goals try
    next hkind =>
      subst hkind
      exact FailsOn.congr (.pure _) rfl
  exact (emitExpr_failsOn locals _ .borrow).before fun _ => .pure _

/-- The pattern of a case fails on the first pending literal in its value. -/
theorem emitCasePattern_failsOn (value : Option Expr) (scrutineeTy : Ty) :
    FailsOn (emitCasePattern cx scrutineeTy value) (Expr.renderedIn? cx.registry locals value) := by
  cases value with
  | none => exact .pure _
  | some value => exact emitPattern_failsOn locals value scrutineeTy

/-- The arm of a case. Nothing is rendered of a body that is empty. -/
theorem failsOn_case (pattern : String) {body : List Stmt}
    (h : FailsOn (Stmt.emitCaseBody cx body) (Stmt.renderedList cx.registry locals body)) :
    FailsOn
      (captured do
        if isEmptyCase body then line (pattern ++ " => \x7b\x7d")
        else do
          line (pattern ++ " => \x7b")
          indented (framed (Stmt.emitCaseBody cx body))
          line "\x7d")
      (Stmt.renderedList cx.registry locals body) := by
  refine .captured ?_
  split
  · next hempty =>
    unfold isEmptyCase at hempty
    split at hempty
    · exact .modify _
    · exact .modify _
    · cases hempty
  · exact .after (.modify _) fun _ => h.framed.indented.before fun _ => .modify _

end

section
variable {cx : FnContext}

mutual

/-- Emitting a statement fails with the first pending literal among what is rendered of it. -/
theorem Stmt.emit_failsOn :
    (s : Stmt) → (locals : List String) →
      FailsOn (s.emit cx) (s.rendered cx.registry locals)
  | .letVar _ name ty mutable none, locals => by
    rw [Stmt.emit]
    exact .after (.pure _) fun _ => .after (.declare name) fun _ => .modify _
  | .letVar _ name ty mutable (some init), locals => by
    rw [Stmt.emit]
    exact (emitValue_failsOn locals init ty).before fun _ => .after (.pure _) fun _ =>
      .after (.declare name) fun _ => .modify _
  | .assign _ target value, locals => by
    rw [Stmt.emit]
    exact .bind (emitTarget_failsOn locals target) fun _ =>
      (emitValue_failsOn locals value _).before fun _ => .modify _
  | .ret _ (some value), locals => by
    rw [Stmt.emit]
    exact (emitValue_failsOn locals value _).before fun _ => .modify _
  | .ret _ none, _ => by
    rw [Stmt.emit]
    exact .modify _
  | .ifElse _ cond thenBlock elseBlock, locals => by
    rw [Stmt.emit, Stmt.rendered]
    exact .bind (emitExpr_failsOn locals cond .borrow) fun _ => .after (.modify _) fun _ =>
      .bind (thenBlock.emit_failsOn locals) fun _ =>
        (Block.emitElse_failsOn elseBlock locals).before fun _ => .modify _
  | .whileLoop _ cond body, locals => by
    rw [Stmt.emit, Stmt.rendered]
    exact .bind (emitExpr_failsOn locals cond .borrow) fun _ => .after (.modify _) fun _ =>
      (body.emit_failsOn locals).before fun _ => .modify _
  | .forEach _ var iterable body, locals => by
    rw [Stmt.emit, Stmt.rendered]
    exact .bind (emitExpr_failsOn locals iterable .borrow) fun _ =>
      .before (.framed (.after (.declare var) fun _ => .after (.modify _) fun _ =>
        body.emit_failsOn (var :: locals))) fun _ => .modify _
  | .switch _ scrutinee cases, locals => by
    rw [Stmt.emit, Stmt.rendered]
    refine .bind (emitExpr_failsOn locals scrutinee .borrow) fun _ => .after (.modify _) fun _ =>
      .before (.indented ?_) fun _ => .modify _
    refine (SwitchCase.emitArms_failsOn _ cases locals).before fun arms =>
      .after (.modify _) fun _ => .after (.modify _) fun _ => ?_
    split
    · exact .pure _
    · exact .modify _
  | .breakLoop _, _ | .continueLoop _, _ => by
    rw [Stmt.emit]
    exact .modify _
  | .expr e, locals => by
    rw [Stmt.emit]
    exact (emitExpr_failsOn locals e .value).before fun _ => .modify _
  | .block body, locals => by
    rw [Stmt.emit, Stmt.rendered]
    exact .after (.modify _) fun _ => (body.emit_failsOn locals).before fun _ => .modify _

/-- Statements in a row fail on the first pending literal of all. -/
theorem Stmt.emitList_failsOn :
    (ss : List Stmt) → (locals : List String) →
      FailsOn (Stmt.emitList cx ss) (Stmt.renderedList cx.registry locals ss)
  | [], _ => .pure _
  | s :: ss, locals => by
    rw [Stmt.emitList, Stmt.renderedList]
    exact .bind (s.emit_failsOn locals) fun _ => Stmt.emitList_failsOn ss _

/-- A block fails on the first pending literal of its statements. -/
theorem Block.emit_failsOn :
    (body : Block) → (locals : List String) →
      FailsOn (body.emit cx) (body.rendered cx.registry locals)
  | ⟨_, stmts⟩, locals => by
    rw [Block.emit, Block.rendered]
    exact (Stmt.emitList_failsOn stmts locals).framed.indented

/-- The alternative of a conditional fails on the first pending literal in it. -/
theorem Block.emitElse_failsOn :
    (body : Option Block) → (locals : List String) →
      FailsOn (Block.emitElse cx body) (Block.rendered? cx.registry locals body)
  | none, _ => .pure _
  | some ⟨_, [s]⟩, locals => by
    cases s with
    | ifElse span cond thenBlock elseBlock =>
      rw [Block.emitElse, Block.rendered?, Block.rendered, Stmt.renderedList, Stmt.renderedList,
        List.append_nil, Stmt.rendered]
      exact .bind (emitExpr_failsOn locals cond .borrow) fun _ => .after (.modify _) fun _ =>
        .bind (thenBlock.emit_failsOn locals) fun _ => Block.emitElse_failsOn elseBlock locals
    | _ =>
      exact .after (.modify _) fun _ => (Stmt.emitList_failsOn _ locals).framed.indented
  | some ⟨_, []⟩, locals =>
    .after (.modify _) fun _ => (Stmt.emitList_failsOn [] locals).framed.indented
  | some ⟨_, s :: s' :: ss⟩, locals => by
    rw [Block.emitElse]
    · exact .after (.modify _) fun _ =>
        (Stmt.emitList_failsOn (s :: s' :: ss) locals).framed.indented
    · nofun

/-- The arms of a switch fail on the first pending literal of the cases, in their order in the
text. -/
theorem SwitchCase.emitArms_failsOn (scrutineeTy : Ty) :
    (cases : List SwitchCase) → (locals : List String) →
      FailsOn (SwitchCase.emitArms cx scrutineeTy cases)
        (SwitchCase.renderedList cx.registry locals cases)
  | [], _ => .pure _
  | ⟨_, value, body, _⟩ :: cases, locals => by
    rw [SwitchCase.emitArms, SwitchCase.renderedList]
    refine .bind (emitCasePattern_failsOn locals value scrutineeTy) fun pattern => ?_
    have hcases := (failsOn_case locals pattern (Stmt.emitCaseBody_failsOn body locals)).bind
      fun lines => (SwitchCase.emitArms_failsOn scrutineeTy cases locals).before
        fun arms => .pure (⟨value.isNone, lines⟩ :: arms)
    dsimp only
    split
    · exact .after (.noteFallthrough pattern) fun _ => hcases
    · exact hcases

/-- The body of a case fails on its first pending literal; the `break` that is dropped has none. -/
theorem Stmt.emitCaseBody_failsOn :
    (ss : List Stmt) → (locals : List String) →
      FailsOn (Stmt.emitCaseBody cx ss) (Stmt.renderedList cx.registry locals ss)
  | [], _ => .pure _
  | [s], locals => by
    rw [Stmt.renderedList]
    cases s with
    | breakLoop span => exact .pure _
    | _ => exact .bind (Stmt.emit_failsOn _ locals) fun _ => .pure _
  | s :: s' :: ss, locals => by
    rw [Stmt.emitCaseBody, Stmt.renderedList]
    · exact .bind (s.emit_failsOn locals) fun _ => Stmt.emitCaseBody_failsOn (s' :: ss) _
    · nofun

end

/-- A result that is written bare fails as the statement does. -/
theorem Stmt.emitTail_failsOn (s : Stmt) (locals : List String) :
    FailsOn (s.emitTail cx) (s.rendered cx.registry locals) := by
  unfold Stmt.emitTail
  split
  · next value => exact (emitValue_failsOn locals value _).before fun _ => .modify _
  · next e =>
    refine .after (.after .get fun _ => .pure _) fun b => ?_
    split
    · exact Stmt.emit_failsOn (.expr e) locals
    · exact (emitValue_failsOn locals e _).before fun _ => .modify _
  · exact s.emit_failsOn locals

/-- The body of a function fails on its first pending literal, whether or not its last statement is
written as an expression. -/
theorem Stmt.emitBody_failsOn :
    (ss : List Stmt) → (locals : List String) →
      FailsOn (Stmt.emitBody cx ss) (Stmt.renderedList cx.registry locals ss)
  | [], _ => .pure _
  | [s], locals => by
    rw [Stmt.emitBody, Stmt.renderedList, Stmt.renderedList, List.append_nil]
    split
    · exact s.emit_failsOn locals
    · exact s.emitTail_failsOn locals
  | s :: s' :: ss, locals => by
    rw [Stmt.emitBody, Stmt.renderedList]
    · exact .bind (s.emit_failsOn locals) fun _ => Stmt.emitBody_failsOn (s' :: ss) _
    · nofun

end

/-! ## Programs -/

section
variable {r : Registry} {copy : CopySet}

/-- A function fails on the first pending literal of its body. -/
theorem emitFunction_failsOn (indent : Nat) (f : FunctionDecl) :
    FailsOn (emitFunction r copy indent f) (f.rendered r) := by
  intro st
  have hlines : FailsOn (f.emitLines (f.context r copy)) (f.rendered r) :=
    .after (.modify _) fun _ => (Stmt.emitBody_failsOn f.body.stmts _).indented.before fun _ =>
      .modify _
  have hfirst := hlines ⟨f.signatureBindings, [], indent, [], 0, [(f.usage copy).note f]⟩
  change match (pendingIn (f.rendered r)).head? with
    | some e => ∃ st', emitFunction r copy indent f st = .error ⟨e.span⟩ st'
    | none => ∃ a st', emitFunction r copy indent f st = .ok a st'
  unfold emitFunction FunctionDecl.emit
  cases hhead : (pendingIn (f.rendered r)).head? with
  | some e =>
    rw [hhead] at hfirst
    obtain ⟨st', hrun⟩ := hfirst
    exact ⟨_, by dsimp only [FunctionDecl.context] at hrun ⊢; rw [hrun]⟩
  | none =>
    rw [hhead] at hfirst
    obtain ⟨a, st', hrun⟩ := hfirst
    exact ⟨_, _, by dsimp only [FunctionDecl.context] at hrun ⊢; rw [hrun]⟩

/-- An implementation fails on the first pending literal of its methods. -/
theorem emitImpl_failsOn (b : ImplBlock) :
    FailsOn (emitImpl r copy b) (b.methods.flatMap (·.rendered r)) :=
  .before (.mapM b.methods fun m => (emitFunction_failsOn 1 m).before fun _ => .pure _) fun _ =>
    .modify _

/-- A function outside of implementations fails on the first pending literal of its body. -/
theorem emitFunctionItem_failsOn (f : FunctionDecl) :
    FailsOn (emitFunctionItem r copy f) (f.rendered r) :=
  (emitFunction_failsOn 0 f).before fun _ => .after (.modify _) fun _ => .modify _

end

/-- The items of a program fail on the first pending literal in the order in which they are
emitted. -/
theorem Program.emitItems_failsOn (p : Program) (r : Registry) :
    FailsOn (p.emitItems r) (p.rendered r) := by
  have htexts : ∀ texts : List String, FailsOn (texts.forM emitItem) [] := fun texts => by
    have h : FailsOn (texts.forM emitItem) (texts.flatMap fun _ => []) :=
      .forM texts fun _ => .modify _
    rwa [List.flatMap_eq_nil_iff.2 fun _ _ => rfl] at h
  unfold Program.emitItems Program.rendered Program.bodies
  rw [List.flatMap_append, List.flatMap_assoc]
  exact .after (htexts _) fun _ => .after (htexts _) fun _ => .after (htexts _) fun _ =>
    .bind (.forM p.impls emitImpl_failsOn) fun _ =>
      .before (.forM p.functions emitFunctionItem_failsOn) fun _ => .modify _

/-! ## What is rendered occurs in the text -/

section
variable (r : Registry)

mutual

/-- What is rendered for an expression is among its nodes, in their order. -/
theorem Expr.rendered_sublist (isLocal : String → Bool) :
    (e : Expr) → (e.rendered r isLocal).Sublist e.nodes
  | ⟨_, .literal _, _⟩ | ⟨_, .ident _, _⟩ | ⟨_, .variant _ _ none, _⟩ => .refl _
  | ⟨_, .unary _ expr, _⟩ | ⟨_, .cast expr _, _⟩ => by
    rw [Expr.rendered, Expr.nodes]
    exact (expr.rendered_sublist isLocal).cons_cons _
  | ⟨_, .binary _ left right, _⟩ => by
    rw [Expr.rendered, Expr.nodes]
    exact ((left.rendered_sublist isLocal).append (right.rendered_sublist isLocal)).cons_cons _
  | ⟨_, .call _ args, _⟩ => by
    rw [Expr.rendered, Expr.nodes]
    exact (Expr.renderedList_sublist isLocal args).cons_cons _
  | ⟨_, .methodCall object _ ns args _, _⟩ => by
    have hargs := Expr.renderedList_sublist isLocal args
    rw [Expr.rendered, Expr.nodes, ExprKind.rendered, ExprKind.nodes]
    refine List.Sublist.cons_cons _ ?_
    split
    · exact hargs.trans (List.sublist_append_right ..)
    · exact (object.rendered_sublist isLocal).append hargs
  | ⟨_, .index object index, _⟩ => by
    rw [Expr.rendered, Expr.nodes]
    exact ((object.rendered_sublist isLocal).append (index.rendered_sublist isLocal)).cons_cons _
  | ⟨_, .field object field _, _⟩ => by
    rw [Expr.rendered, Expr.nodes, ExprKind.rendered, ExprKind.nodes]
    refine List.Sublist.cons_cons _ ?_
    split
    · exact List.nil_sublist _
    · exact object.rendered_sublist isLocal
  | ⟨_, .array items, _⟩ | ⟨_, .tuple items, _⟩ => by
    rw [Expr.rendered, Expr.nodes]
    exact (Expr.renderedList_sublist isLocal items).cons_cons _
  | ⟨_, .aggregate _ fields, _⟩ => by
    rw [Expr.rendered, Expr.nodes]
    exact (FieldInit.renderedList_sublist isLocal fields).cons_cons _
  | ⟨_, .variant _ _ (some data), _⟩ => by
    rw [Expr.rendered, Expr.nodes, ExprKind.rendered, ExprKind.nodes]
    refine List.Sublist.cons_cons _ ?_
    split
    · exact Expr.renderedFirst_sublist isLocal _ data
    · exact Expr.renderedList_sublist isLocal data
  | ⟨_, .ternary cond thenExpr elseExpr, _⟩ => by
    rw [Expr.rendered, Expr.nodes]
    exact ((cond.rendered_sublist isLocal).append ((thenExpr.rendered_sublist isLocal).append
      (elseExpr.rendered_sublist isLocal))).cons_cons _

/-- What is rendered for expressions is among their nodes. -/
theorem Expr.renderedList_sublist (isLocal : String → Bool) :
    (es : List Expr) → (Expr.renderedList r isLocal es).Sublist (Expr.nodesList es)
  | [] => .refl _
  | e :: es => by
    rw [Expr.renderedList, Expr.nodesList]
    exact (e.rendered_sublist isLocal).append (Expr.renderedList_sublist isLocal es)

/-- What is rendered for the first few expressions is among the nodes of all. -/
theorem Expr.renderedFirst_sublist (isLocal : String → Bool) :
    (n : Nat) → (es : List Expr) → (Expr.renderedFirst r isLocal n es).Sublist (Expr.nodesList es)
  | 0, _ => by
    rw [Expr.renderedFirst]
    · exact List.nil_sublist _
    · nofun
  | _ + 1, [] => .refl _
  | n + 1, e :: es => by
    rw [Expr.renderedFirst, Expr.nodesList]
    exact (e.rendered_sublist isLocal).append (Expr.renderedFirst_sublist isLocal n es)

/-- What is rendered for the fields of an aggregate is among their nodes. -/
theorem FieldInit.renderedList_sublist (isLocal : String → Bool) :
    (fields : List FieldInit) →
      (FieldInit.renderedList r isLocal fields).Sublist (FieldInit.nodesList fields)
  | [] => .refl _
  | ⟨_, value⟩ :: fields => by
    rw [FieldInit.renderedList, FieldInit.nodesList]
    exact (value.rendered_sublist isLocal).append (FieldInit.renderedList_sublist isLocal fields)

end

/-- What is rendered for an optional expression is among its nodes. -/
theorem Expr.renderedIn?_sublist (locals : List String) (e : Option Expr) :
    (Expr.renderedIn? r locals e).Sublist (Expr.nodes? e) := by
  cases e with
  | none => exact .refl _
  | some e => exact e.rendered_sublist r _

mutual

/-- What is rendered for a statement is among its nodes, in their order. -/
theorem Stmt.rendered_sublist :
    (s : Stmt) → (locals : List String) → (s.rendered r locals).Sublist s.nodes
  | .letVar _ _ _ _ value, locals | .ret _ value, locals => by
    rw [Stmt.rendered, Stmt.nodes]
    exact Expr.renderedIn?_sublist r locals value
  | .assign _ target value, locals => by
    rw [Stmt.rendered, Stmt.nodes]
    exact (target.rendered_sublist r _).append (value.rendered_sublist r _)
  | .ifElse _ cond thenBlock elseBlock, locals => by
    rw [Stmt.rendered, Stmt.nodes]
    exact (cond.rendered_sublist r _).append
      ((thenBlock.rendered_sublist locals).append (Block.rendered?_sublist elseBlock locals))
  | .whileLoop _ e body, locals => by
    rw [Stmt.rendered, Stmt.nodes]
    exact (e.rendered_sublist r _).append (body.rendered_sublist locals)
  | .forEach _ var e body, locals => by
    rw [Stmt.rendered, Stmt.nodes]
    exact (e.rendered_sublist r _).append (body.rendered_sublist (var :: locals))
  | .switch _ scrutinee cases, locals => by
    rw [Stmt.rendered, Stmt.nodes]
    exact (scrutinee.rendered_sublist r _).append (SwitchCase.renderedList_sublist cases locals)
  | .breakLoop _, _ | .continueLoop _, _ => by
    rw [Stmt.rendered]
    exact List.nil_sublist _
  | .expr e, locals => by
    rw [Stmt.rendered, Stmt.nodes]
    exact e.rendered_sublist r _
  | .block body, locals => by
    rw [Stmt.rendered, Stmt.nodes]
    exact body.rendered_sublist locals

/-- What is rendered for statements is among their nodes. -/
theorem Stmt.renderedList_sublist :
    (ss : List Stmt) → (locals : List String) →
      (Stmt.renderedList r locals ss).Sublist (Stmt.nodesList ss)
  | [], _ => .refl _
  | s :: ss, locals => by
    rw [Stmt.renderedList, Stmt.nodesList]
    exact (s.rendered_sublist locals).append (Stmt.renderedList_sublist ss _)

/-- What is rendered for a block is among its nodes. -/
theorem Block.rendered_sublist :
    (body : Block) → (locals : List String) → (body.rendered r locals).Sublist body.nodes
  | ⟨_, stmts⟩, locals => by
    rw [Block.rendered, Block.nodes]
    exact Stmt.renderedList_sublist stmts locals

/-- What is rendered for an optional block is among its nodes. -/
theorem Block.rendered?_sublist :
    (body : Option Block) → (locals : List String) →
      (Block.rendered? r locals body).Sublist (Block.nodes? body)
  | none, _ => .refl _
  | some body, locals => by
    rw [Block.rendered?, Block.nodes?]
    exact body.rendered_sublist locals

/-- What is rendered for the cases of a switch is among their nodes. -/
theorem SwitchCase.renderedList_sublist :
    (cases : List SwitchCase) → (locals : List String) →
      (SwitchCase.renderedList r locals cases).Sublist (SwitchCase.nodesList cases)
  | [], _ => .refl _
  | ⟨_, value, body, _⟩ :: cases, locals => by
    rw [SwitchCase.renderedList, SwitchCase.nodesList]
    exact (Expr.renderedIn?_sublist r locals value).append
      ((Stmt.renderedList_sublist body locals).append
        (SwitchCase.renderedList_sublist cases locals))

end

/-- What is rendered of a program occurs in one of its bodies. -/
theorem Program.mem_nodes_of_rendered {p : Program} {e : Expr} (h : e ∈ p.rendered r) :
    ∃ f ∈ p.bodies, e ∈ f.nodes := by
  obtain ⟨f, hf, he⟩ := List.mem_flatMap.1 h
  exact ⟨f, hf, (Stmt.renderedList_sublist r f.body.stmts _).subset he⟩

end

/-! ## The first pending literal -/

/-- The first pending literal is the one with no other before it. -/
theorem head?_pendingIn_eq_some_iff {nodes : List Expr} {e : Expr} :
    (pendingIn nodes).head? = some e ↔
      ∃ before after, nodes = before ++ e :: after ∧ (∀ e' ∈ before, e'.isPending = false) ∧
        e.isPending = true := by
  rw [pendingIn, List.head?_filter, List.find?_eq_some_iff_append]
  constructor
  · rintro ⟨he, before, after, hnodes, hbefore⟩
    exact ⟨before, after, hnodes, fun e' h => by simpa using hbefore e' h, he⟩
  · rintro ⟨before, after, hnodes, hbefore, he⟩
    exact ⟨he, before, after, hnodes, fun e' h => by simpa using hbefore e' h⟩

/-- The result of emission is decided by the first pending literal that is rendered. -/
theorem Program.value_emit (p : Program) (r : Registry) (header : Option String) :
    match (pendingIn (p.rendered r)).head? with
    | some e => (p.emit r header).value = .error ⟨e.span⟩
    | none => ∃ source, (p.emit r header).value = .ok source := by
  have hfirst := p.emitItems_failsOn r ⟨[], 0, []⟩
  unfold Program.emit
  cases hhead : (pendingIn (p.rendered r)).head? with
  | some e =>
    rw [hhead] at hfirst
    obtain ⟨st, hrun⟩ := hfirst
    rw [hrun]
  | none =>
    rw [hhead] at hfirst
    obtain ⟨_, st, hrun⟩ := hfirst
    rw [hrun]
    exact ⟨_, rfl⟩

/-- **Emission fails exactly on pending literals.** The error of an emission is that of the first
aggregate literal without a target among the expressions that are rendered. There is an error if and
only if there is such a literal, so a program whose bodies hold none has a source. -/
theorem Program.emit_error_iff (p : Program) (r : Registry) (header : Option String) :
    (∀ err, (p.emit r header).value = .error err ↔
      ∃ before e after, p.rendered r = before ++ e :: after ∧
        (∀ e' ∈ before, e'.isPending = false) ∧ e.isPending = true ∧ err = ⟨e.span⟩) ∧
    ((∃ err, (p.emit r header).value = .error err) ↔ ∃ e ∈ p.rendered r, e.isPending = true) ∧
    ((∀ f ∈ p.bodies, ∀ e ∈ f.nodes, e.isPending = false) →
      ∃ source, (p.emit r header).value = .ok source) := by
  have hvalue := p.value_emit r header
  cases hhead : (pendingIn (p.rendered r)).head? with
  | some e =>
    rw [hhead] at hvalue
    obtain ⟨before, after, hnodes, hbefore, he⟩ := head?_pendingIn_eq_some_iff.1 hhead
    have hmem : e ∈ p.rendered r := hnodes ▸ List.mem_append_right before List.mem_cons_self
    refine ⟨fun err => ⟨fun herr => ?_, ?_⟩, ⟨fun _ => ⟨e, hmem, he⟩, fun _ => ⟨_, hvalue⟩⟩,
      fun hnone => ?_⟩
    · rw [hvalue] at herr
      cases herr
      exact ⟨before, e, after, hnodes, hbefore, he, rfl⟩
    · rintro ⟨before', e', after', hnodes', hbefore', he', rfl⟩
      have hhead' := head?_pendingIn_eq_some_iff.2 ⟨before', after', hnodes', hbefore', he'⟩
      cases hhead.symm.trans hhead'
      exact hvalue
    · obtain ⟨f, hf, hef⟩ := Program.mem_nodes_of_rendered r hmem
      rw [hnone f hf e hef] at he
      cases he
  | none =>
    rw [hhead] at hvalue
    obtain ⟨source, hsource⟩ := hvalue
    have hnone : ¬∃ e ∈ p.rendered r, e.isPending = true := by
      rintro ⟨e, hmem, he⟩
      have hpending : e ∈ pendingIn (p.rendered r) := List.mem_filter.2 ⟨hmem, he⟩
      rw [List.head?_eq_none_iff.1 hhead] at hpending
      cases hpending
    refine ⟨fun err => ⟨fun herr => ?_, ?_⟩, ⟨fun ⟨err, herr⟩ => ?_, fun h => (hnone h).elim⟩,
      fun _ => ⟨source, hsource⟩⟩
    · rw [hsource] at herr
      cases herr
    · rintro ⟨before, e, after, hnodes, -, he, -⟩
      exact (hnone ⟨e, hnodes ▸ List.mem_append_right before List.mem_cons_self, he⟩).elim
    · rw [hsource] at herr
      cases herr

-- The object of a call that is tagged with a namespace is not rendered, and of two nested literals
-- the outer one is reported.
example :
    let pending := fun offset fields => (⟨⟨offset, 1⟩, .aggregate .pending fields, none⟩ : Expr)
    let skipped := Expr.ofKind (.methodCall (pending 1 []) "random" (some "Math") [] none)
    let nested := pending 2 [⟨"inner", pending 3 []⟩]
    let f : FunctionDecl := ⟨.zero, "f", [], .void,
      .ofStmts [.expr skipped, .expr (.ofKind (.array [nested]))], false, none⟩
    (Program.emit ⟨[.function f]⟩ .empty none).value = .error ⟨⟨2, 1⟩⟩ := rfl

end Oxidize
