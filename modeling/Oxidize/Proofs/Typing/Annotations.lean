import Oxidize.Proofs.Typing.AliasDepth
import Oxidize.Proofs.Typing.Resolved
import Oxidize.Proofs.Visited

/-!
# The annotations of a resolved expression

If the types that a program declares expand within the bound on the depth of aliases, and those of
the variables in scope are built up from such types, then so are the annotations of type resolution.
`Expr.resolve_sound` follows the inference of types through every kind of expression: it holds of
each expression that passes come to in a resolved one, and of the receiver of a method call on a
value.
-/

namespace Oxidize

open Ty (PartsExpand)

/-! ## Types from types -/

section
variable {r : Registry} {t : Ty}

/-- A type that may be missing expands if it does where it is there. -/
theorem Ty.PartsExpand.getD_void {o : Option Ty} (h : ∀ t ∈ o, t.PartsExpand r) :
    (o.getD .void).PartsExpand r := by
  cases o with
  | none => exact .prim _
  | some t => exact h t rfl

/-- The element type of a type that expands does. -/
theorem Ty.PartsExpand.element? (h : t.PartsExpand r) : ∀ u ∈ t.element?, u.PartsExpand r := by
  intro u hu
  have hstrip := h.stripRefs
  unfold Ty.element? at hu
  split at hu
  · next elem heq =>
    rw [heq] at hstrip
    cases hu
    exact hstrip.elem
  · cases hu

/-- The type of the variable of a loop expands if the type of the iterable does. -/
theorem Ty.PartsExpand.loopElement (h : t.PartsExpand r) : t.loopElement.PartsExpand r := by
  have hstrip := h.stripRefs
  unfold Ty.loopElement
  split
  · next elem heq =>
    rw [heq] at hstrip
    exact hstrip.elem
  · split <;> exact .prim _

/-- The type of an element that is accessed expands if the type of the object does. -/
theorem Ty.PartsExpand.elementTy (h : t.PartsExpand r) (index : Expr) :
    (elementTy t index).PartsExpand r := by
  have hstrip := h.stripRefs
  unfold Oxidize.elementTy
  split
  · next elem heq =>
    rw [heq] at hstrip
    exact hstrip.elem
  · next elems heq =>
    rw [heq] at hstrip
    split
    · split
      · exact .getD_void fun u hu => hstrip.elems u (List.mem_of_getElem? hu)
      · exact .prim _
    · exact .prim _
  · split <;> exact .prim _

/-- The type of a builtin's result is built up from those of its receiver and arguments. -/
theorem ResultKind.resolve_expands (kind : ResultKind) {receiver : Option Ty} {args : List Ty}
    (hrecv : ∀ t ∈ receiver, t.PartsExpand r) (hargs : ∀ t ∈ args, t.PartsExpand r) :
    (kind.resolve receiver args).PartsExpand r := by
  have helem : (((receiver.map Ty.stripRefs).bind Ty.element?).getD .void).PartsExpand r := by
    refine .getD_void fun u hu => ?_
    obtain ⟨t, ht, hu⟩ := Option.bind_eq_some_iff.1 hu
    obtain ⟨recv, hr, rfl⟩ := Option.map_eq_some_iff.1 ht
    exact (hrecv recv hr).stripRefs.element? u hu
  have hfirst : (args.head?.getD .void).PartsExpand r :=
    .getD_void fun t ht => hargs t (List.mem_of_mem_head? ht)
  cases kind with
  | receiver =>
    cases receiver with
    | none => exact .prim _
    | some t =>
      have hstrip := (hrecv t rfl).stripRefs
      simp only [ResultKind.resolve, Option.map_some]
      split
      · exact .prim _
      · exact hstrip
  | element => exact helem
  | optionalElement => exact .optional helem
  | textSequence => exact .seq (.prim _)
  | firstArg => exact hfirst
  | sequenceOfFirstArg => exact .seq hfirst
  | void | bool | number | size | ownedText => exact .prim _

/-- An expected type that is adopted expands if both types do. -/
theorem adopt_expands {expected : Option Ty} {inferred : Ty}
    (hexpected : ∀ t ∈ expected, t.PartsExpand r) (h : inferred.PartsExpand r) :
    (adopt expected inferred).PartsExpand r := by
  unfold adopt
  split
  · exact hexpected _ rfl
  · exact hexpected _ rfl
  · exact h

end

/-! ## Declared types -/

/-- The types of a signature are built up from types that expand. -/
structure FnSig.Expands (r : Registry) (sig : FnSig) : Prop where
  params : ∀ t ∈ sig.params, t.PartsExpand r
  ret : sig.ret.PartsExpand r

/-- The types that declarations give to names, fields, variants and signatures are built up from
types that expand. -/
structure Registry.TypesExpand (r : Registry) : Prop where
  names : ∀ name, (Ty.aggregate name).Expands r
  fields : ∀ name field, ∀ t ∈ r.fieldType? name field, t.PartsExpand r
  payloads : ∀ enumName variant, ∀ ts ∈ r.variantPayload? enumName variant,
    ∀ t ∈ ts, t.PartsExpand r
  functions : ∀ name, ∀ sig ∈ r.function? name, sig.Expands r
  methods : ∀ target name, ∀ sig ∈ r.method? target name, sig.Expands r

/-- The types of the variables in scope are built up from types that expand. -/
def TypesExpandIn (r : Registry) (env : Env) : Prop :=
  ∀ name, ∀ t ∈ env.lookup? name, t.PartsExpand r

section
variable {r : Registry} {env : Env}

/-- A new frame declares nothing. -/
theorem TypesExpandIn.push (h : TypesExpandIn r env) : TypesExpandIn r env.push :=
  h

/-- Declaring a variable of a type that expands. -/
theorem TypesExpandIn.declare (h : TypesExpandIn r env) (name : String) {t : Ty}
    (ht : t.PartsExpand r) : TypesExpandIn r (env.declare name t) := by
  intro other u hu
  rw [Scope.lookup?_declare] at hu
  split at hu
  · cases hu
    exact ht
  · exact h other u hu

/-- The type of a name expands, whether it is a variable or a function. -/
theorem TypesExpandIn.identTy (h : TypesExpandIn r env) (name : String) :
    (identTy r env name).PartsExpand r := by
  unfold Oxidize.identTy
  split
  · next t ht => exact h name t ht
  · split
    · exact .fn _ _
    · exact .prim _

namespace Registry.TypesExpand

variable (hr : r.TypesExpand)
include hr

/-- A named type expands. -/
theorem aggregate (name : String) : (Ty.aggregate name).PartsExpand r :=
  .whole (hr.names name)

/-- An enumeration expands. -/
theorem enum (name : String) : (Ty.enum name).PartsExpand r :=
  .whole (hr.names name)

/-- The signature of a method expands. -/
theorem methodOf? (recv : Ty) (method : String) :
    ∀ sig ∈ r.methodOf? recv method, sig.Expands r := by
  intro sig hsig
  obtain ⟨name, -, hsig⟩ := Option.bind_eq_some_iff.1 hsig
  exact hr.methods name method sig hsig

/-- The parameters of a function expand. -/
theorem callParams (callee : String) :
    ∀ t ∈ ((r.function? callee).map (·.params)).getD [], t.PartsExpand r := by
  cases hsig : r.function? callee with
  | none => exact List.forall_mem_nil _
  | some sig => exact (hr.functions callee sig hsig).params

/-- The result of a function expands. -/
theorem callTy (callee : String) :
    (((r.function? callee).map fun sig => r.normalize sig.ret).getD .void).PartsExpand r := by
  refine .getD_void fun t ht => ?_
  obtain ⟨sig, hsig, rfl⟩ := Option.map_eq_some_iff.1 ht
  exact (hr.functions callee sig hsig).ret.normalize

/-- The data of a variant expands. -/
theorem payload (enumName variant : String) :
    ∀ t ∈ (r.variantPayload? enumName variant).getD [], t.PartsExpand r := by
  cases hts : r.variantPayload? enumName variant with
  | none => exact List.forall_mem_nil _
  | some ts => exact hr.payloads enumName variant ts hts

/-- The type of a field expands. -/
theorem memberTy (obj : Ty) (field : String) : (memberTy r obj field).PartsExpand r := by
  unfold Oxidize.memberTy
  split
  · exact .prim _
  · cases obj with
    | aggregate name =>
      refine .getD_void fun t ht => ?_
      obtain ⟨u, hu, rfl⟩ := Option.map_eq_some_iff.1 ht
      exact (hr.fields name field u hu).normalize
    | _ => exact .prim _

/-- The result of a method expands if the types of its receiver and its arguments do. -/
theorem methodTy {recv : Ty} (hrecv : recv.PartsExpand r) (method : String) {args : List Ty}
    (hargs : ∀ t ∈ args, t.PartsExpand r) : (methodTy r recv method args).PartsExpand r := by
  unfold Oxidize.methodTy
  split
  · next d _ =>
    refine d.rule.result.resolve_expands (fun t ht => ?_) hargs
    cases ht
    exact hrecv
  · refine .getD_void fun t ht => ?_
    obtain ⟨sig, hsig, rfl⟩ := Option.map_eq_some_iff.1 ht
    exact (hr.methodOf? recv method sig hsig).ret.normalize

/-- The parameters of a method expand if the type of its receiver does. -/
theorem methodParams {recv : Ty} (hrecv : recv.PartsExpand r) (method : String) (count : Nat) :
    ∀ t ∈ methodParams r recv method count, t.PartsExpand r := by
  unfold Oxidize.methodParams
  split
  · split
    · next elem _ helem =>
      intro t ht
      rw [List.eq_of_mem_replicate ht]
      exact hrecv.element? elem helem
    · exact List.forall_mem_nil _
  · cases hsig : r.methodOf? recv method with
    | none => exact List.forall_mem_nil _
    | some sig => exact (hr.methodOf? recv method sig hsig).params

end Registry.TypesExpand

end

/-! ## Expressions -/

/-- The type that a cast is to. -/
def Expr.castTy? (e : Expr) : Option Ty :=
  match e.kind with
  | .cast _ ty => some ty
  | _ => none

/-- The casts among the expressions are to types that expand. -/
def CastsExpand (r : Registry) (nodes : List Expr) : Prop :=
  ∀ e ∈ nodes, ∀ ty ∈ e.castTy?, ty.Expands r

/-- The expressions are among those of the source. -/
def Among (source nodes : List Expr) : Prop :=
  ∀ e ∈ nodes, e ∈ source

namespace Among

variable {source : List Expr} {e : Expr} {a b : List Expr}

/-- The first node is in the source. -/
theorem head (h : Among source (e :: a)) : e ∈ source :=
  (List.forall_mem_cons.1 h).1

/-- What is inside the first node is in the source. -/
theorem inside (h : Among source (e :: a)) : Among source a :=
  (List.forall_mem_cons.1 h).2

/-- The first nodes are in the source. -/
theorem left (h : Among source (a ++ b)) : Among source a :=
  (List.forall_mem_append.1 h).1

/-- The last nodes are in the source. -/
theorem right (h : Among source (a ++ b)) : Among source b :=
  (List.forall_mem_append.1 h).2

end Among

/-- The expression is what resolving one of the source in the given scope gives. -/
def Expr.ResolvedIn (r : Registry) (env : Env) (source : List Expr) (v : Expr) : Prop :=
  ∃ e ∈ source, ∃ expected, (e.resolve r env expected).value = v

/-- The expression has an annotation, which is built up from types that expand. -/
def Expr.Annotated (r : Registry) (v : Expr) : Prop :=
  ∃ t, v.ty = some t ∧ t.PartsExpand r

/-- The expression was resolved in the given scope from one of the source. It has an annotation
built up from types that expand, and so has the receiver of a method call on a value. -/
structure Expr.Sound (r : Registry) (env : Env) (source : List Expr) (v : Expr) : Prop where
  resolved : v.ResolvedIn r env source
  annotated : v.Annotated r
  receiver : ∀ object method ns args objectTy, v.kind = .methodCall object method ns args objectTy →
    namespaceOf? ns object env.isLocal = none → object.Annotated r

section
variable {r : Registry} {env : Env} {source : List Expr}

/-- An expression is visited itself. -/
theorem Expr.mem_visited (isLocal : String → Bool) (e : Expr) : e ∈ e.visited isLocal := by
  obtain ⟨span, kind, ty⟩ := e
  rw [Expr.visited]
  exact .head _

/-- Each of several expressions is visited. -/
theorem Expr.mem_visitedList (isLocal : String → Bool) {e : Expr} {es : List Expr} (h : e ∈ es) :
    e ∈ Expr.visitedList isLocal es := by
  induction es with
  | nil => cases h
  | cons e' es ih =>
    rw [Expr.visitedList]
    rcases List.mem_cons.1 h with rfl | h
    · exact List.mem_append_left _ (e.mem_visited isLocal)
    · exact List.mem_append_right _ (ih h)

/-- The type that is known of an annotated expression expands. -/
theorem Expr.Annotated.knownTy {v : Expr} (h : v.Annotated r) :
    (v.knownTy r env).PartsExpand r := by
  obtain ⟨span, kind, ty⟩ := v
  obtain ⟨t, rfl, ht⟩ := h
  rw [Expr.knownTy]
  exact ht

/-- The annotation of an annotated expression expands. -/
theorem Expr.Annotated.ty {v : Expr} (h : v.Annotated r) : ∀ t ∈ v.ty, t.PartsExpand r := by
  obtain ⟨t, hty, ht⟩ := h
  rw [hty]
  rintro _ ⟨⟩
  exact ht

/-- So does its type, if `void` stands for a missing one. -/
theorem Expr.Annotated.tyOrVoid {v : Expr} (h : v.Annotated r) : v.tyOrVoid.PartsExpand r :=
  .getD_void h.ty

/-- The types that are known of annotated expressions expand. -/
theorem Expr.knownTys_expand {es : List Expr} (h : ∀ e ∈ es, e.Annotated r) :
    ∀ t ∈ Expr.knownTys r env es, t.PartsExpand r := by
  induction es with
  | nil => exact List.forall_mem_nil _
  | cons e es ih =>
    obtain ⟨he, hes⟩ := List.forall_mem_cons.1 h
    rw [Expr.knownTys]
    exact List.forall_mem_cons.2 ⟨he.knownTy, ih hes⟩

/-- What a kind of expression is to make a sound expression: its parts are sound, and its type is
built up from types that expand. -/
structure ExprKind.Sound (r : Registry) (env : Env) (source : List Expr) (kind : ExprKind) :
    Prop where
  parts : ∀ v ∈ kind.visited env.isLocal, v.Sound r env source
  infer : (kind.infer r env).PartsExpand r

/-- A method call on a value comes to its receiver. -/
theorem ExprKind.Sound.receiver {object : Expr} {method : String} {ns : Option String}
    {args : List Expr} {objectTy : Option Ty}
    (h : (ExprKind.methodCall object method ns args objectTy).Sound r env source)
    (hns : namespaceOf? ns object env.isLocal = none) : object.Annotated r := by
  refine (h.parts object ?_).annotated
  rw [ExprKind.visited, hns]
  exact List.mem_append_left _ (object.mem_visited _)

/-- The type of a literal expands. -/
theorem Literal.ty_expands (value : Literal) : value.ty.PartsExpand r := by
  cases value with
  | null => exact .optional (.prim _)
  | number | bool | text => exact .prim _

/-- The type of a constant of a namespace expands. -/
theorem constantTy_expands (n : Namespace) (field : String) :
    (((n.constant? field).map fun c : Constant => c.result.resolve none []).getD
      Ty.void).PartsExpand r := by
  refine .getD_void fun t ht => ?_
  obtain ⟨c, -, rfl⟩ := Option.map_eq_some_iff.1 ht
  exact c.result.resolve_expands nofun (List.forall_mem_nil _)

/-- The type of an aggregate literal expands. -/
theorem aggregate_expands (hr : r.TypesExpand) (target : AggregateTarget)
    (fields : List FieldInit) : ((ExprKind.aggregate target fields).infer r env).PartsExpand r := by
  cases target with
  | named name => exact hr.aggregate name
  | pending => exact .prim _

/-- The type of a binary operation expands if its left operand is annotated. -/
theorem binary_expands (op : BinOp) {left right : Expr} (h : left.Annotated r) :
    ((ExprKind.binary op left right).infer r env).PartsExpand r := by
  rw [ExprKind.infer]
  split
  · exact .prim _
  · dsimp only
    split
    · exact .prim _
    · exact h.knownTy

/-- Types that expand do so after their aliases are expanded. -/
theorem Ty.PartsExpand.map_normalize {ts : List Ty} (h : ∀ t ∈ ts, t.PartsExpand r) :
    ∀ t ∈ ts.map r.normalize, t.PartsExpand r :=
  List.forall_mem_map.2 fun t ht => (h t ht).normalize

mutual

/-- Resolving an expression in a place of a type that expands gives sound expressions. -/
theorem Expr.resolve_sound (hr : r.TypesExpand) (hcasts : CastsExpand r source)
    (henv : TypesExpandIn r env) :
    (e : Expr) → (expected : Option Ty) → (∀ t ∈ expected, t.PartsExpand r) →
      Among source e.nodes →
      ∀ v ∈ (e.resolve r env expected).value.visited env.isLocal, v.Sound r env source
  | ⟨span, kind, ty⟩, expected, hexpected, hsource => by
    rw [Expr.nodes] at hsource
    have hkind := kind.resolve_sound hr hcasts henv span ty expected hexpected hsource
    have hvalue : (Expr.resolve r env expected ⟨span, kind, ty⟩).value =
        ⟨span, (kind.resolve r env span expected).value,
          some (adopt expected ((kind.resolve r env span expected).value.infer r env))⟩ := by
      rw [Expr.resolve, Traced.value_bind, Traced.value_pure]
    rw [hvalue, Expr.visited]
    have hannotated := adopt_expands hexpected hkind.infer
    refine List.forall_mem_cons.2 ⟨⟨⟨_, hsource.head, _, hvalue⟩, ⟨_, rfl, hannotated⟩,
      fun object method ns args objectTy hk hns => ?_⟩, hkind.parts⟩
    rw [show (kind.resolve r env span expected).value = _ from hk] at hkind
    exact hkind.receiver hns

/-- Resolving the kind of an expression makes all of it sound. -/
theorem ExprKind.resolve_sound (hr : r.TypesExpand) (hcasts : CastsExpand r source)
    (henv : TypesExpandIn r env) :
    (k : ExprKind) → (span : Span) → (ty expected : Option Ty) →
      (∀ t ∈ expected, t.PartsExpand r) → Among source (⟨span, k, ty⟩ :: k.nodes) →
      (k.resolve r env span expected).value.Sound r env source
  | .literal value, _, _, _, _, _ => by
    rw [ExprKind.resolve, Traced.value_pure]
    exact ⟨List.forall_mem_nil _, value.ty_expands⟩
  | .ident name, _, _, _, _, _ => by
    rw [ExprKind.resolve, Traced.value_bind, Traced.value_pure]
    exact ⟨List.forall_mem_nil _, henv.identTy name⟩
  | .unary op expr, _, _, _, _, hsource => by
    rw [ExprKind.nodes] at hsource
    rw [ExprKind.resolve, Traced.value_bind, Traced.value_pure]
    have hexpr := expr.resolve_sound hr hcasts henv none nofun hsource.inside
    refine ⟨hexpr, ?_⟩
    cases op with
    | not => exact .prim _
    | neg => exact (hexpr _ (Expr.mem_visited _ _)).annotated.knownTy
  | .binary op left right, _, _, _, _, hsource => by
    rw [ExprKind.nodes] at hsource
    rw [ExprKind.resolve, Traced.value_bind, Traced.value_bind, Traced.value_pure]
    have hleft := left.resolve_sound hr hcasts henv none nofun hsource.inside.left
    have hright := right.resolve_sound hr hcasts henv none nofun hsource.inside.right
    exact ⟨List.forall_mem_append.2 ⟨hleft, hright⟩,
      binary_expands op (hleft _ (Expr.mem_visited _ _)).annotated⟩
  | .call callee args, _, _, _, _, hsource => by
    rw [ExprKind.nodes] at hsource
    rw [ExprKind.resolve, Traced.value_bind, Traced.value_pure]
    exact ⟨Expr.resolveList_sound hr hcasts henv args _ (.map_normalize (hr.callParams callee))
      hsource.inside, hr.callTy callee⟩
  | .methodCall object method ns args objectTy, span, _, expected, _, hsource => by
    rw [ExprKind.nodes] at hsource
    have hargs := fun expected hexpected =>
      Expr.resolveList_sound hr hcasts henv args expected hexpected hsource.inside.right
    have hannotated := fun expected hexpected e he =>
      (hargs expected hexpected e (Expr.mem_visitedList env.isLocal he)).annotated
    cases hc : calledEnum? r env ns object with
    | some name =>
      rw [ExprKind.resolve_onEnum hc, Traced.value_bind, Traced.value_pure]
      exact ⟨hargs _ (.map_normalize (.map_normalize (hr.payload name method))), hr.enum name⟩
    | none =>
      cases hns : namespaceOf? ns object env.isLocal with
      | some n =>
        rw [ExprKind.resolve_onNamespace hc hns]
        simp only [Traced.value_bind, Traced.value_pure]
        have hns' : namespaceOf? (some n.ident) object env.isLocal = some n :=
          Namespace.ofIdent?_ident n
        refine ⟨?_, ?_⟩
        · rw [ExprKind.visited, hns']
          exact hargs [] nofun
        · rw [ExprKind.infer, hns']
          refine .getD_void fun t ht => ?_
          obtain ⟨d, -, rfl⟩ := Option.map_eq_some_iff.1 ht
          exact d.rule.result.resolve_expands nofun
            (Expr.knownTys_expand (hannotated [] nofun))
      | none =>
        rw [ExprKind.resolve_onValue hc hns]
        simp only [Traced.value_bind, Traced.value_pure]
        have hobject := object.resolve_sound hr hcasts henv none nofun hsource.inside.left
        have hrecv := (hobject _ (Expr.mem_visited _ _)).annotated
        have hparams := PartsExpand.map_normalize
          (hr.methodParams hrecv.tyOrVoid.normalize method args.length)
        refine ⟨?_, ?_⟩
        · rw [ExprKind.visited, namespaceOf?_resolve, hns]
          exact List.forall_mem_append.2 ⟨hobject, hargs _ hparams⟩
        · rw [ExprKind.infer, namespaceOf?_resolve, hns]
          dsimp only
          split
          · exact hr.enum _
          · exact hr.methodTy hrecv.knownTy.normalize method
              (Expr.knownTys_expand (hannotated _ hparams))
  | .index object index, _, _, _, _, hsource => by
    rw [ExprKind.nodes] at hsource
    rw [ExprKind.resolve, Traced.value_bind, Traced.value_bind, Traced.value_pure]
    have hobject := object.resolve_sound hr hcasts henv none nofun hsource.inside.left
    have hindex := index.resolve_sound hr hcasts henv none nofun hsource.inside.right
    exact ⟨List.forall_mem_append.2 ⟨hobject, hindex⟩,
      (hobject _ (Expr.mem_visited _ _)).annotated.knownTy.normalize.elementTy _⟩
  | .field object field objectTy, span, _, expected, _, hsource => by
    rw [ExprKind.nodes] at hsource
    cases hc : enumNamed? r env object with
    | some name =>
      simp only [ExprKind.resolve, hc, Traced.value_pure]
      exact ⟨List.forall_mem_nil _, hr.enum name⟩
    | none =>
      cases hconst : namespaceConstant? object field env.isLocal with
      | some c =>
        simp only [ExprKind.resolve, hc, hconst, Traced.value_pure]
        obtain ⟨n, hns, -⟩ := Option.bind_eq_some_iff.1 hconst
        refine ⟨?_, ?_⟩
        · rw [ExprKind.visited, hconst]
          exact List.forall_mem_nil _
        · rw [ExprKind.infer, hns]
          exact constantTy_expands n field
      | none =>
        simp only [ExprKind.resolve, hc, hconst, Traced.value_bind, Traced.value_pure]
        have hobject := object.resolve_sound hr hcasts henv none nofun hsource.inside
        refine ⟨?_, ?_⟩
        · rw [ExprKind.visited, namespaceConstant?_resolve, hconst]
          exact hobject
        · rw [ExprKind.infer, enumNamed?_resolve, hc]
          split
          · next n _ => exact constantTy_expands n field
          · exact hr.memberTy _ field
  | .array items, _, _, expected, hexpected, hsource => by
    rw [ExprKind.nodes] at hsource
    rw [ExprKind.resolve, Traced.value_bind, Traced.value_pure]
    have helems : ∀ t ∈ (match expected.bind Ty.element? with
        | some elem => List.replicate items.length elem
        | none => []), t.PartsExpand r := by
      split
      · next elem helem =>
        obtain ⟨t, ht, helem⟩ := Option.bind_eq_some_iff.1 helem
        intro u hu
        rw [List.eq_of_mem_replicate hu]
        exact (hexpected t ht).element? elem helem
      · exact List.forall_mem_nil _
    have hitems := Expr.resolveList_sound hr hcasts henv items _ helems hsource.inside
    refine ⟨hitems, .seq (.getD_void fun t ht => ?_)⟩
    exact Expr.knownTys_expand (fun e he => (hitems e (Expr.mem_visitedList _ he)).annotated) t
      (List.mem_of_mem_head? ht)
  | .aggregate target fields, _, _, _, _, hsource => by
    rw [ExprKind.nodes] at hsource
    simp only [ExprKind.resolve, Traced.value_bind, Traced.value_pure]
    exact ⟨FieldInit.resolveList_sound hr hcasts henv fields _ hsource.inside,
      aggregate_expands hr _ _⟩
  | .tuple items, _, _, expected, hexpected, hsource => by
    rw [ExprKind.nodes] at hsource
    rw [ExprKind.resolve_tuple, Traced.value_bind, Traced.value_pure]
    have hparts : ∀ t ∈ tupleParts expected, t.PartsExpand r := by
      unfold tupleParts
      split
      · exact (hexpected _ rfl).elems
      · exact List.forall_mem_nil _
    have hitems := Expr.resolveList_sound hr hcasts henv items _ hparts hsource.inside
    exact ⟨hitems, .tuple (Expr.knownTys_expand fun e he =>
      (hitems e (Expr.mem_visitedList _ he)).annotated)⟩
  | .variant enumName variant none, _, _, _, _, _ => by
    simp only [ExprKind.resolve, Expr.resolveOption, Traced.value_bind, Traced.value_pure]
    exact ⟨List.forall_mem_nil _, hr.enum enumName⟩
  | .variant enumName variant (some data), _, _, _, _, hsource => by
    rw [ExprKind.nodes] at hsource
    simp only [ExprKind.resolve, Expr.resolveOption, Traced.value_bind, Traced.value_pure]
    exact ⟨Expr.resolveList_sound hr hcasts henv data _
      (.map_normalize (.map_normalize (hr.payload enumName variant))) hsource.inside,
      hr.enum enumName⟩
  | .ternary cond thenExpr elseExpr, _, _, expected, hexpected, hsource => by
    rw [ExprKind.nodes] at hsource
    rw [ExprKind.resolve, Traced.value_bind, Traced.value_bind, Traced.value_bind,
      Traced.value_pure]
    have hcond := cond.resolve_sound hr hcasts henv none nofun hsource.inside.left
    have hthen := thenExpr.resolve_sound hr hcasts henv expected hexpected hsource.inside.right.left
    have helse := elseExpr.resolve_sound hr hcasts henv expected hexpected
      hsource.inside.right.right
    exact ⟨List.forall_mem_append.2 ⟨hcond, List.forall_mem_append.2 ⟨hthen, helse⟩⟩,
      (hthen _ (Expr.mem_visited _ _)).annotated.knownTy⟩
  | .cast expr ty, _, _, _, _, hsource => by
    rw [ExprKind.nodes] at hsource
    rw [ExprKind.resolve, Traced.value_bind, Traced.value_pure]
    exact ⟨expr.resolve_sound hr hcasts henv none nofun hsource.inside,
      (PartsExpand.whole (hcasts _ hsource.head ty rfl)).normalize⟩

/-- Resolving expressions makes all of them sound. -/
theorem Expr.resolveList_sound (hr : r.TypesExpand) (hcasts : CastsExpand r source)
    (henv : TypesExpandIn r env) :
    (es : List Expr) → (expected : List Ty) → (∀ t ∈ expected, t.PartsExpand r) →
      Among source (Expr.nodesList es) →
      ∀ v ∈ Expr.visitedList env.isLocal (Expr.resolveList r env expected es).value,
        v.Sound r env source
  | [], _, _, _ => by
    rw [Expr.resolveList]
    exact List.forall_mem_nil _
  | e :: es, expected, hexpected, hsource => by
    rw [Expr.nodesList] at hsource
    rw [Expr.resolveList, Traced.value_bind, Traced.value_bind, Traced.value_pure, Expr.visitedList]
    have he := e.resolve_sound hr hcasts henv _
      (fun t ht => hexpected t (List.mem_of_mem_head? ht)) hsource.left
    have hes := Expr.resolveList_sound hr hcasts henv es _
      (fun t ht => hexpected t (List.mem_of_mem_tail ht)) hsource.right
    exact List.forall_mem_append.2 ⟨he, hes⟩

/-- Resolving the fields of an aggregate makes all of their values sound. -/
theorem FieldInit.resolveList_sound (hr : r.TypesExpand) (hcasts : CastsExpand r source)
    (henv : TypesExpandIn r env) :
    (fields : List FieldInit) → (target : AggregateTarget) →
      Among source (FieldInit.nodesList fields) →
      ∀ v ∈ FieldInit.visitedList env.isLocal (FieldInit.resolveList r env target fields).value,
        v.Sound r env source
  | [], _, _ => by
    rw [FieldInit.resolveList]
    exact List.forall_mem_nil _
  | ⟨name, value⟩ :: fields, target, hsource => by
    rw [FieldInit.nodesList] at hsource
    simp only [FieldInit.resolveList, Traced.value_bind, Traced.value_pure, FieldInit.visitedList]
    refine List.forall_mem_append.2
      ⟨value.resolve_sound hr hcasts henv _ (fun t ht => ?_) hsource.left,
        FieldInit.resolveList_sound hr hcasts henv fields target hsource.right⟩
    cases target with
    | pending => cases ht
    | named struct =>
      obtain ⟨u, hu, rfl⟩ := Option.map_eq_some_iff.1 ht
      exact (hr.fields struct name u hu).normalize

end

/-- Resolving an optional expression makes all of it sound. -/
theorem Expr.resolve?_sound (hr : r.TypesExpand) (hcasts : CastsExpand r source)
    (henv : TypesExpandIn r env) (e : Option Expr)
    {expected : Option Ty} (hexpected : ∀ t ∈ expected, t.PartsExpand r)
    (hsource : Among source (Expr.nodes? e)) :
    ∀ e' ∈ (Expr.resolve? r env expected e).value, ∀ v ∈ e'.visited env.isLocal,
      v.Sound r env source := by
  cases e with
  | none => exact fun e' he' => nomatch he'
  | some e =>
    rintro e' ⟨⟩
    exact e.resolve_sound hr hcasts henv expected hexpected hsource

end

end Oxidize
