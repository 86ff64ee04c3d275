import Oxidize.Proofs.Typing.Annotations
import Oxidize.Proofs.Typing.Visits

/-!
# Resolution is complete

After resolution every expression that passes come to carries a type, every method call on a value
and every access to a field of a value carries the type of its object, and no member of an enum is
left that is written as a field or a method (`Expr.Complete`). Conversely, a field access or a method
call becomes a variant only if its object names an enum that no variable hides, and the variant is
the one that was written (`VariantOf`).

Both are facts about one visit: `Visit.output_complete` and `Visit.variantOf_output`. They hold all
over a program since the places of its resolved bodies are what the visits leave.
-/

namespace Oxidize

/-! ## One visit -/

/-- The expression is annotated, in a scope where variables have the given types. -/
structure Expr.Complete (r : Registry) (env : Env) (e : Expr) : Prop where
  ty : e.ty.isSome = true
  /-- A method call without a namespace has the type of its object, and without a tag its object
  names no enum. -/
  call : ∀ object method ns args objectTy, e.kind = .methodCall object method ns args objectTy →
    (ns = none ∨ namespaceOf? ns object env.isLocal = none → objectTy.isSome = true) ∧
      (ns = none → enumNamed? r env object = none)
  /-- A field access that is no constant has the type of its object, which names no enum. -/
  member : ∀ object field objectTy, e.kind = .field object field objectTy →
    (namespaceConstant? object field env.isLocal = none → objectTy.isSome = true) ∧
      enumNamed? r env object = none

/-- How an expression of the source gives a variant: it names a member of an enum that no variable
hides, calls one, or is a variant already. The data is as long as what was written. -/
inductive VariantOf (r : Registry) (env : Env) (enumName name : String) :
    Option (List Expr) → ExprKind → Prop
  | member {object : Expr} (objectTy : Option Ty) (enum : enumNamed? r env object = some enumName) :
      VariantOf r env enumName name none (.field object name objectTy)
  | call {object : Expr} {args data : List Expr} (objectTy : Option Ty)
      (enum : enumNamed? r env object = some enumName) (length : data.length = args.length) :
      VariantOf r env enumName name (some data) (.methodCall object name none args objectTy)
  | variant {written data : Option (List Expr)}
      (length : data.map List.length = written.map List.length) :
      VariantOf r env enumName name data (.variant enumName name written)

/-- A field access, a method call or a variant. -/
def ExprKind.isMember : ExprKind → Bool
  | .field _ _ _ | .methodCall _ _ _ _ _ | .variant _ _ _ => true
  | _ => false

/-- What resolution makes of a kind of expression, as far as members are concerned. -/
inductive ResolvesTo (r : Registry) (env : Env) : ExprKind → ExprKind → Prop
  | member {object : Expr} {name enumName : String} {objectTy : Option Ty}
      (enum : enumNamed? r env object = some enumName) :
      ResolvesTo r env (.field object name objectTy) (.variant enumName name none)
  | constant {object : Expr} {name : String} {objectTy : Option Ty} {c : Constant}
      (enum : enumNamed? r env object = none)
      (isConstant : namespaceConstant? object name env.isLocal = some c) :
      ResolvesTo r env (.field object name objectTy) (.field object name objectTy)
  | value (object : Expr) {name : String} {objectTy : Option Ty} {obj : Ty}
      (enum : enumNamed? r env object = none)
      (isConstant : namespaceConstant? object name env.isLocal = none) :
      ResolvesTo r env (.field object name objectTy)
        (.field (object.resolve r env none).value name (some obj))
  | onEnum {object : Expr} {method enumName : String} {args data : List Expr}
      {objectTy : Option Ty} (enum : enumNamed? r env object = some enumName)
      (length : data.length = args.length) :
      ResolvesTo r env (.methodCall object method none args objectTy)
        (.variant enumName method (some data))
  | onNamespace {object : Expr} {method : String} {ns : Option String} {args : List Expr}
      {objectTy : Option Ty} (args' : List Expr) (n : Namespace) :
      ResolvesTo r env (.methodCall object method ns args objectTy)
        (.methodCall object method (some n.ident) args' objectTy)
  | onValue (object : Expr) {method : String} {ns : Option String} {args args' : List Expr}
      {objectTy : Option Ty} {recv : Ty} (enum : calledEnum? r env ns object = none)
      (isValue : namespaceOf? ns object env.isLocal = none) :
      ResolvesTo r env (.methodCall object method ns args objectTy)
        (.methodCall (object.resolve r env none).value method ns args' (some recv))
  | variant {enumName name : String} {written data : Option (List Expr)}
      (length : data.map List.length = written.map List.length) :
      ResolvesTo r env (.variant enumName name written) (.variant enumName name data)
  | other {kind kind' : ExprKind} (isMember : kind'.isMember = false) : ResolvesTo r env kind kind'

/-- Resolving a kind of expression makes of members what the relation says. -/
theorem ExprKind.resolvesTo_resolve (r : Registry) (env : Env) (span : Span)
    (expected : Option Ty) (kind : ExprKind) :
    ResolvesTo r env kind (kind.resolve r env span expected).value := by
  cases kind with
  | field object name objectTy =>
    cases hc : enumNamed? r env object with
    | some enumName =>
      simp only [ExprKind.resolve, hc, Traced.value_pure]
      exact .member hc
    | none =>
      cases hconst : namespaceConstant? object name env.isLocal with
      | some c =>
        simp only [ExprKind.resolve, hc, hconst, Traced.value_pure]
        exact .constant hc hconst
      | none =>
        simp only [ExprKind.resolve, hc, hconst, Traced.value_bind, Traced.value_pure]
        exact .value object hc hconst
  | methodCall object method ns args objectTy =>
    cases hc : calledEnum? r env ns object with
    | some enumName =>
      rw [ExprKind.resolve_onEnum hc]
      cases ns with
      | some tag => cases hc
      | none => exact .onEnum hc (Expr.length_resolveList ..)
    | none =>
      cases hns : namespaceOf? ns object env.isLocal with
      | some n =>
        rw [ExprKind.resolve_onNamespace hc hns]
        exact .onNamespace _ n
      | none =>
        rw [ExprKind.resolve_onValue hc hns]
        exact .onValue object hc hns
  | variant enumName name written =>
    rw [ExprKind.resolve]
    cases written with
    | none => exact .variant rfl
    | some es => exact .variant (congrArg some (Expr.length_resolveList ..))
  | tuple items =>
    rw [ExprKind.resolve_tuple]
    exact .other rfl
  | _ =>
    rw [ExprKind.resolve]
    exact .other rfl

section
variable (r : Registry) (v : Visit)

/-- So does a visit. -/
theorem Visit.resolvesTo_output : ResolvesTo r v.env v.input.kind (v.output r).kind := by
  obtain ⟨env, expected, span, kind, ty⟩ := v
  rw [Visit.kind_output]
  exact kind.resolvesTo_resolve r env span expected

/-- Every visit leaves an expression that is annotated. -/
theorem Visit.output_complete : (v.output r).Complete r v.env := by
  have hresolved := v.resolvesTo_output r
  refine ⟨v.isSome_ty_output r, fun object method ns args objectTy hkind => ?_,
    fun object name objectTy hkind => ?_⟩
  · rw [hkind] at hresolved
    generalize v.input.kind = kind at hresolved
    cases hresolved with
    | onNamespace args' n =>
      refine ⟨?_, nofun⟩
      rintro (htag | hvalue)
      · cases htag
      · exact nomatch (Namespace.ofIdent?_ident n).symm.trans hvalue
    | onValue object₀ hc hns =>
      refine ⟨fun _ => rfl, ?_⟩
      rintro rfl
      exact (enumNamed?_resolve r v.env none object₀).trans hc
    | other h => cases h
  · rw [hkind] at hresolved
    generalize v.input.kind = kind at hresolved
    cases hresolved with
    | constant hc hconst => exact ⟨fun hnone => (nomatch hconst.symm.trans hnone), hc⟩
    | value object₀ hc hconst =>
      exact ⟨fun _ => rfl, (enumNamed?_resolve r v.env none object₀).trans hc⟩
    | other h => cases h

/-- A visit leaves a variant only where one was written. -/
theorem Visit.variantOf_output {enumName name : String} {data : Option (List Expr)}
    (h : (v.output r).kind = .variant enumName name data) :
    VariantOf r v.env enumName name data v.input.kind := by
  have hresolved := v.resolvesTo_output r
  rw [h] at hresolved
  generalize v.input.kind = kind at hresolved ⊢
  cases hresolved with
  | member hc => exact .member _ hc
  | onEnum hc hlength => exact .call _ hc hlength
  | variant hlength => exact .variant hlength
  | other h => cases h

end

/-! ## Visits come to the source -/

section
variable {r : Registry} {source : List Expr}

/-- The visits come to expressions of the source. -/
def ComeTo (source : List Expr) (visits : List Visit) : Prop :=
  ∀ v ∈ visits, v.input ∈ source

namespace ComeTo

variable {v : Visit} {vs vs' : List Visit}

/-- Without visits there is nothing to come to. -/
theorem nil : ComeTo source [] :=
  List.forall_mem_nil _

/-- Visits in a row come to expressions of the source if both parts do. -/
theorem append (h : ComeTo source vs) (h' : ComeTo source vs') : ComeTo source (vs ++ vs') :=
  List.forall_mem_append.2 ⟨h, h'⟩

/-- A visit to an expression of the source in front. -/
theorem cons (hv : v.input ∈ source) (h : ComeTo source vs) : ComeTo source (v :: vs) :=
  List.forall_mem_cons.2 ⟨hv, h⟩

end ComeTo

mutual

/-- The visits of an expression come to the expressions inside it. -/
theorem Expr.visits_comeTo (env : Env) (expected : Option Ty) :
    (e : Expr) → Among source e.nodes → ComeTo source (e.visits r env expected)
  | ⟨span, kind, ty⟩, h => by
    rw [Expr.nodes] at h
    rw [Expr.visits]
    exact kind.visits_comeTo env expected ⟨env, expected, ⟨span, kind, ty⟩⟩ h.head h.inside

/-- The visits of a kind of expression come to the expression and those inside it. -/
theorem ExprKind.visits_comeTo (env : Env) (expected : Option Ty) (self : Visit) :
    (kind : ExprKind) → self.input ∈ source → Among source kind.nodes →
      ComeTo source (kind.visits r env expected self)
  | .literal _, hself, _ | .ident _, hself, _ | .variant _ _ none, hself, _ => by
    rw [ExprKind.visits]
    exact .cons hself .nil
  | .unary _ expr, hself, h | .cast expr _, hself, h => by
    rw [ExprKind.nodes] at h
    rw [ExprKind.visits]
    exact .cons hself (expr.visits_comeTo env none h)
  | .binary _ left right, hself, h | .index left right, hself, h => by
    rw [ExprKind.nodes] at h
    rw [ExprKind.visits]
    exact .cons hself
      ((left.visits_comeTo env none h.left).append (right.visits_comeTo env none h.right))
  | .call _ args, hself, h => by
    rw [ExprKind.nodes] at h
    rw [ExprKind.visits]
    exact .cons hself (Expr.visitsList_comeTo env _ args h)
  | .methodCall object _ ns args _, hself, h => by
    rw [ExprKind.nodes] at h
    rw [ExprKind.visits]
    have hargs := fun expected => Expr.visitsList_comeTo env expected args h.right
    split
    · exact .cons hself (hargs _)
    · split
      · exact .cons hself (hargs _)
      · exact (object.visits_comeTo env none h.left).append ((ComeTo.cons hself .nil).append (hargs _))
  | .field object _ _, hself, h => by
    rw [ExprKind.nodes] at h
    rw [ExprKind.visits]
    split
    · exact (object.visits_comeTo env none h).append (.cons hself .nil)
    · exact .cons hself .nil
  | .array items, hself, h | .tuple items, hself, h => by
    rw [ExprKind.nodes] at h
    rw [ExprKind.visits]
    exact .cons hself (Expr.visitsList_comeTo env _ items h)
  | .aggregate _ fields, hself, h => by
    rw [ExprKind.nodes] at h
    rw [ExprKind.visits]
    exact .cons hself (FieldInit.visitsList_comeTo env _ fields h)
  | .variant _ _ (some data), hself, h => by
    rw [ExprKind.nodes] at h
    rw [ExprKind.visits]
    exact .cons hself (Expr.visitsList_comeTo env _ data h)
  | .ternary cond thenExpr elseExpr, hself, h => by
    rw [ExprKind.nodes] at h
    rw [ExprKind.visits]
    exact .cons hself ((cond.visits_comeTo env none h.left).append
      ((thenExpr.visits_comeTo env expected h.right.left).append
        (elseExpr.visits_comeTo env expected h.right.right)))

/-- The visits of expressions come to the expressions inside them. -/
theorem Expr.visitsList_comeTo (env : Env) (expected : List Ty) :
    (es : List Expr) → Among source (Expr.nodesList es) →
      ComeTo source (Expr.visitsList r env expected es)
  | [], _ => by
    rw [Expr.visitsList]
    exact .nil
  | e :: es, h => by
    rw [Expr.nodesList] at h
    rw [Expr.visitsList]
    exact (e.visits_comeTo env _ h.left).append (Expr.visitsList_comeTo env _ es h.right)

/-- The visits of fields come to the expressions inside their values. -/
theorem FieldInit.visitsList_comeTo (env : Env) (target : AggregateTarget) :
    (fields : List FieldInit) → Among source (FieldInit.nodesList fields) →
      ComeTo source (FieldInit.visitsList r env target fields)
  | [], _ => by
    rw [FieldInit.visitsList]
    exact .nil
  | ⟨_, value⟩ :: fields, h => by
    rw [FieldInit.nodesList] at h
    unfold FieldInit.visitsList
    exact (value.visits_comeTo env _ h.left).append
      (FieldInit.visitsList_comeTo env target fields h.right)

end

/-- The visits of an optional expression come to the expressions inside it. -/
theorem Expr.visits?_comeTo (env : Env) (expected : Option Ty) (e : Option Expr)
    (h : Among source (Expr.nodes? e)) : ComeTo source (Expr.visits? r env expected e) := by
  cases e with
  | none => exact .nil
  | some e => exact e.visits_comeTo env expected h

end

section
variable {r : Registry} {ret : Ty} {source : List Expr}

mutual

/-- The visits of a statement come to the expressions inside it. -/
theorem Stmt.visits_comeTo :
    (s : Stmt) → (env : Env) → (isTail : Bool) → Among source s.nodes →
      ComeTo source (s.visits r ret env isTail)
  | .letVar _ _ _ _ value, env, _, h | .ret _ value, env, _, h => by
    rw [Stmt.nodes] at h
    rw [Stmt.visits]
    exact Expr.visits?_comeTo env _ value h
  | .assign _ target value, env, _, h => by
    rw [Stmt.nodes] at h
    rw [Stmt.visits]
    exact (target.visits_comeTo env _ h.left).append (value.visits_comeTo env _ h.right)
  | .ifElse _ cond thenBlock elseBlock, env, _, h => by
    rw [Stmt.nodes] at h
    rw [Stmt.visits]
    exact (cond.visits_comeTo env _ h.left).append ((thenBlock.visits_comeTo env h.right.left).append
      (Block.visits?_comeTo elseBlock env h.right.right))
  | .whileLoop _ cond body, env, _, h => by
    rw [Stmt.nodes] at h
    rw [Stmt.visits]
    exact (cond.visits_comeTo env _ h.left).append (body.visits_comeTo env h.right)
  | .forEach _ _ iterable body, env, _, h => by
    rw [Stmt.nodes] at h
    rw [Stmt.visits]
    exact (iterable.visits_comeTo env _ h.left).append (body.visits_comeTo _ h.right)
  | .switch _ scrutinee cases, env, _, h => by
    rw [Stmt.nodes] at h
    rw [Stmt.visits]
    exact (scrutinee.visits_comeTo env _ h.left).append
      (SwitchCase.visitsList_comeTo cases env _ h.right)
  | .breakLoop _, _, _, _ | .continueLoop _, _, _, _ => by
    rw [Stmt.visits]
    exact .nil
  | .expr e, env, _, h => by
    rw [Stmt.nodes] at h
    rw [Stmt.visits]
    exact e.visits_comeTo env _ h
  | .block body, env, _, h => by
    rw [Stmt.nodes] at h
    rw [Stmt.visits]
    exact body.visits_comeTo env h

/-- The visits of statements come to the expressions inside them. -/
theorem Stmt.visitsList_comeTo :
    (ss : List Stmt) → (env : Env) → Among source (Stmt.nodesList ss) →
      ComeTo source (Stmt.visitsList r ret env ss)
  | [], _, _ => by
    rw [Stmt.visitsList]
    exact .nil
  | s :: ss, env, h => by
    rw [Stmt.nodesList] at h
    rw [Stmt.visitsList]
    exact (s.visits_comeTo env false h.left).append (Stmt.visitsList_comeTo ss _ h.right)

/-- The visits of a block come to the expressions inside it. -/
theorem Block.visits_comeTo :
    (body : Block) → (env : Env) → Among source body.nodes →
      ComeTo source (body.visits r ret env)
  | ⟨_, stmts⟩, env, h => by
    rw [Block.nodes] at h
    rw [Block.visits]
    exact Stmt.visitsList_comeTo stmts _ h

/-- The visits of an optional block come to the expressions inside it. -/
theorem Block.visits?_comeTo :
    (body : Option Block) → (env : Env) → Among source (Block.nodes? body) →
      ComeTo source (Block.visits? r ret env body)
  | none, _, _ => by
    rw [Block.visits?]
    exact .nil
  | some body, env, h => by
    rw [Block.nodes?] at h
    rw [Block.visits?]
    exact body.visits_comeTo env h

/-- The visits of the cases of a switch come to the expressions inside them. -/
theorem SwitchCase.visitsList_comeTo :
    (cases : List SwitchCase) → (env : Env) → (scrutineeTy : Option Ty) →
      Among source (SwitchCase.nodesList cases) →
      ComeTo source (SwitchCase.visitsList r ret env scrutineeTy cases)
  | [], _, _, _ => by
    rw [SwitchCase.visitsList]
    exact .nil
  | ⟨_, value, body, _⟩ :: cases, env, scrutineeTy, h => by
    rw [SwitchCase.nodesList] at h
    rw [SwitchCase.visitsList]
    exact (Expr.visits?_comeTo env _ value h.left).append
      ((Stmt.visitsList_comeTo body _ h.right.left).append
        (SwitchCase.visitsList_comeTo cases env scrutineeTy h.right.right))

end

/-- The visits of the body of a function come to the expressions inside it. -/
theorem Stmt.visitsBody_comeTo (ss : List Stmt) :
    ∀ env : Env, Among source (Stmt.nodesList ss) →
      ComeTo source (Stmt.visitsBody r ret env ss) := by
  induction ss with
  | nil => exact fun _ _ => .nil
  | cons s ss ih =>
    intro env h
    rw [Stmt.nodesList] at h
    cases ss with
    | nil => exact s.visits_comeTo env _ h.left
    | cons s' ss =>
      rw [Stmt.visitsBody_cons r ret env s (List.cons_ne_nil _ _)]
      exact (s.visits_comeTo env false h.left).append (ih _ h.right)

end

/-- The visits of a function come to the expressions in its body. -/
theorem FunctionDecl.visits_comeTo (r : Registry) (owner : Option String) (f : FunctionDecl) :
    ComeTo f.nodes (f.visits r owner) :=
  Stmt.visitsBody_comeTo f.body.stmts _ fun _ h => h

/-! ## Programs -/

/-- At every place of a resolved function stands an annotated expression. -/
theorem FunctionDecl.places_complete (r : Registry) (owner : Option String) (f : FunctionDecl) :
    ∀ pl ∈ (f.resolve r owner).value.places r owner, pl.node.Complete r pl.scopes.typed := by
  intro pl hpl
  have hresult := (f.visits_perm r owner).mem_iff.2 (List.mem_map_of_mem hpl)
  obtain ⟨v, -, hv⟩ := List.mem_map.1 hresult
  obtain ⟨henv, hnode⟩ := Prod.mk.inj hv
  rw [← henv, ← hnode]
  exact v.output_complete r

/-- **Resolution is complete.** At every place of every resolved body stands an annotated expression.
The places of a body are what the visits of its source leave, up to order. Each visit comes to an
expression of the source and leaves one with the same range, which is a variant only if the
expression was one or named an enum that no variable hides there. -/
theorem Program.resolve_complete (p : Program) :
    (∀ owned ∈ p.resolve.value.ownedBodies, ∀ pl ∈ owned.2.places (.ofProgram p) owned.1,
      pl.node.Complete (.ofProgram p) pl.scopes.typed) ∧
    ∀ owned ∈ p.ownedBodies,
      ((owned.2.visits (.ofProgram p) owned.1).map (Visit.result (.ofProgram p))).Perm
        (((owned.2.resolve (.ofProgram p) owned.1).value.places (.ofProgram p) owned.1).map
          Place.typed) ∧
      ∀ v ∈ owned.2.visits (.ofProgram p) owned.1,
        v.input ∈ owned.2.nodes ∧ (v.output (.ofProgram p)).span = v.input.span ∧
        ∀ enumName name data, (v.output (.ofProgram p)).kind = .variant enumName name data →
          VariantOf (.ofProgram p) v.env enumName name data v.input.kind := by
  constructor
  · intro owned howned
    rw [Program.ownedBodies_resolve] at howned
    obtain ⟨source, -, rfl⟩ := List.mem_map.1 howned
    exact source.2.places_complete (.ofProgram p) source.1
  · intro owned _
    refine ⟨owned.2.visits_perm (.ofProgram p) owned.1, fun v hv => ⟨?_, ?_, ?_⟩⟩
    · exact owned.2.visits_comeTo (.ofProgram p) owned.1 v hv
    · exact v.span_output (.ofProgram p)
    · exact fun _ _ _ hkind => v.variantOf_output (.ofProgram p) hkind

end Oxidize
