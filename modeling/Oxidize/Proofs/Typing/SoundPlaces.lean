import Oxidize.Proofs.Places
import Oxidize.Proofs.Typing.Annotations

/-!
# The places of a resolved function

`FunctionDecl.places_sound` goes through the statements of a resolved function: at every place
stands what an expression of the function was resolved to in the scope recorded there, and its
annotation is built up from types that expand. `Program.TypesExpand.registry` reduces the
assumptions to one about the types that a program declares.
-/

namespace Oxidize

open Ty (PartsExpand)

/-! ## Statements -/

mutual

/-- The types given to the variables that a statement declares. -/
def Stmt.letTys : Stmt → List Ty
  | .letVar _ _ ty _ _ => ty.toList
  | .ifElse _ _ thenBlock elseBlock => thenBlock.letTys ++ Block.letTys? elseBlock
  | .whileLoop _ _ body | .forEach _ _ _ body | .block body => body.letTys
  | .switch _ _ cases => SwitchCase.letTysList cases
  | .assign _ _ _ | .ret _ _ | .breakLoop _ | .continueLoop _ | .expr _ => []

/-- The types given to the variables that statements declare. -/
def Stmt.letTysList : List Stmt → List Ty
  | [] => []
  | s :: ss => s.letTys ++ Stmt.letTysList ss

/-- The types given to the variables that a block declares. -/
def Block.letTys : Block → List Ty
  | ⟨_, stmts⟩ => Stmt.letTysList stmts

/-- The types given to the variables that an optional block declares. -/
def Block.letTys? : Option Block → List Ty
  | none => []
  | some body => body.letTys

/-- The types given to the variables that the cases of a switch declare. -/
def SwitchCase.letTysList : List SwitchCase → List Ty
  | [] => []
  | ⟨_, _, body, _⟩ :: cases => Stmt.letTysList body ++ SwitchCase.letTysList cases

end

/-- The types given to variables expand, and the expressions are among those of the source, where
the types that casts are to expand. -/
structure LocalTypesExpand (r : Registry) (source : List Expr) (letTys : List Ty)
    (nodes : List Expr) : Prop where
  lets : ∀ t ∈ letTys, t.Expands r
  casts : CastsExpand r source
  nodes : Among source nodes

namespace LocalTypesExpand

variable {r : Registry} {source nodes nodes' : List Expr} {tys tys' : List Ty}

/-- What is asked of the local types of two parts holds of the first one. -/
theorem left (h : LocalTypesExpand r source (tys ++ tys') (nodes ++ nodes')) :
    LocalTypesExpand r source tys nodes :=
  ⟨(List.forall_mem_append.1 h.lets).1, h.casts, h.nodes.left⟩

/-- What is asked of the local types of two parts holds of the second one. -/
theorem right (h : LocalTypesExpand r source (tys ++ tys') (nodes ++ nodes')) :
    LocalTypesExpand r source tys' nodes' :=
  ⟨(List.forall_mem_append.1 h.lets).2, h.casts, h.nodes.right⟩

/-- What is left after expressions that declare nothing. -/
theorem after (h : LocalTypesExpand r source tys (nodes ++ nodes')) :
    LocalTypesExpand r source tys nodes' :=
  ⟨h.lets, h.casts, h.nodes.right⟩

end LocalTypesExpand

/-- From the places of resolved statements: type resolution has the given scope at the end, the
types in it expand, and the places are sound. -/
structure Resolves (r : Registry) (source : List Expr) (out : Traced Place Scopes) (env : Env) :
    Prop where
  typed : out.value.typed = env
  expands : TypesExpandIn r env
  sound : ∀ pl ∈ out.trace, pl.node.Sound r pl.scopes.typed source

namespace Resolves

variable {r : Registry} {source : List Expr} {env env' : Env} {σ : Scopes}
  {out : Traced Place Scopes} {f : Scopes → Traced Place Scopes}

/-- Where nothing is visited, all places are sound. -/
theorem pure (hσ : σ.typed = env) (henv : TypesExpandIn r env) :
    Resolves r source (Pure.pure σ) env :=
  ⟨hσ, henv, List.forall_mem_nil _⟩

/-- An expression with sound nodes in front keeps the places sound. -/
theorem visit (hσ : σ.typed = env) {e : Expr}
    (he : ∀ v ∈ e.visited env.isLocal, v.Sound r env source) (h : Resolves r source out env') :
    Resolves r source (σ.visit e >>= fun _ => out) env' := by
  subst hσ
  exact ⟨h.typed, h.expands, List.forall_mem_append.2 ⟨List.forall_mem_map.2 he, h.sound⟩⟩

/-- An optional expression with sound nodes in front keeps the places sound. -/
theorem visit? (hσ : σ.typed = env) {e : Option Expr}
    (he : ∀ e' ∈ e, ∀ v ∈ e'.visited env.isLocal, v.Sound r env source)
    (h : Resolves r source out env') : Resolves r source (σ.visit? e >>= fun _ => out) env' := by
  cases e with
  | none => exact h
  | some e => exact h.visit hσ (he e rfl)

/-- The places of two parts in a row are sound if those of both are. -/
theorem bind (h : Resolves r source out env) (hf : Resolves r source (f out.value) env') :
    Resolves r source (out >>= f) env' :=
  ⟨hf.typed, hf.expands, List.forall_mem_append.2 ⟨h.sound, hf.sound⟩⟩

/-- After a block type resolution goes back to the scope before it. -/
theorem leave (hσ : σ.typed = env) (henv : TypesExpandIn r env) (inline : Bool)
    (h : ∀ pl ∈ out.trace, pl.node.Sound r pl.scopes.typed source) :
    Resolves r source (out >>= fun inner => Pure.pure (σ.leave inline inner)) env := by
  refine ⟨hσ, henv, ?_⟩
  rw [Traced.trace_bind, Traced.trace_pure, List.append_nil]
  exact h

end Resolves

section
variable {r : Registry} {source : List Expr} {ret : Ty}

mutual

/-- The places of a resolved statement are sound. -/
theorem Stmt.places_resolve (hr : r.TypesExpand) (hret : ret.PartsExpand r) :
    (s : Stmt) → (isTail : Bool) → (env : Env) → TypesExpandIn r env →
      LocalTypesExpand r source s.letTys s.nodes → (σ : Scopes) → σ.typed = env →
      Resolves r source ((s.resolve r ret env isTail).value.1.places r σ)
        (s.resolve r ret env isTail).value.2
  | .letVar span name ty mutable init, _, env, henv, hlocal, σ, hσ => by
    rw [Stmt.nodes, Stmt.letTys] at hlocal
    have hdeclared : ∀ t ∈ ty.map r.normalize, t.PartsExpand r := by
      intro t ht
      obtain ⟨u, hu, rfl⟩ := Option.map_eq_some_iff.1 ht
      exact (PartsExpand.whole (hlocal.lets u (by simp [hu]))).normalize
    have hinit := Expr.resolve?_sound hr hlocal.casts henv init hdeclared hlocal.nodes
    simp only [Stmt.resolve, Traced.value_bind, Traced.value_pure, Stmt.places]
    refine .visit? hσ hinit (.pure (congrArg (Scope.declare · name _) hσ)
      (henv.declare name (.getD_void ?_)))
    cases ty with
    | some t => exact hdeclared
    | none =>
      intro t ht
      obtain ⟨e, he, ht⟩ := Option.bind_eq_some_iff.1 ht
      exact (hinit e he e (e.mem_visited _)).annotated.ty t ht
  | .assign span target value, _, env, henv, hlocal, σ, hσ => by
    rw [Stmt.nodes] at hlocal
    simp only [Stmt.resolve, Traced.value_bind, Traced.value_pure, Stmt.places]
    have htarget := target.resolve_sound hr hlocal.casts henv none nofun hlocal.nodes.left
    have hty := (htarget _ (Expr.mem_visited _ _)).annotated.ty
    have hvalue := value.resolve_sound hr hlocal.casts henv _ hty hlocal.nodes.right
    exact .visit hσ htarget (.visit hσ hvalue (.pure hσ henv))
  | .ret span value, _, env, henv, hlocal, σ, hσ => by
    rw [Stmt.nodes] at hlocal
    simp only [Stmt.resolve, Traced.value_bind, Traced.value_pure, Stmt.places]
    refine .visit? hσ (Expr.resolve?_sound hr hlocal.casts henv value ?_ hlocal.nodes)
      (.pure hσ henv)
    rintro _ ⟨⟩
    exact hret
  | .ifElse span cond thenBlock elseBlock, _, env, henv, hlocal, σ, hσ => by
    rw [Stmt.nodes, Stmt.letTys] at hlocal
    simp only [Stmt.resolve, Traced.value_bind, Traced.value_pure, Stmt.places]
    have hthen := thenBlock.places_resolve hr hret false env henv
      hlocal.after.left σ hσ
    exact .visit hσ (cond.resolve_sound hr hlocal.casts henv none nofun hlocal.nodes.left)
      (hthen.bind (Block.places?_resolve hr hret elseBlock env henv
        hlocal.after.right _ hthen.typed))
  | .whileLoop span cond body, _, env, henv, hlocal, σ, hσ => by
    rw [Stmt.nodes, Stmt.letTys] at hlocal
    simp only [Stmt.resolve, Traced.value_bind, Traced.value_pure, Stmt.places]
    exact .visit hσ (cond.resolve_sound hr hlocal.casts henv none nofun hlocal.nodes.left)
      (body.places_resolve hr hret false env henv hlocal.after σ hσ)
  | .forEach span var iterable body, _, env, henv, hlocal, σ, hσ => by
    rw [Stmt.nodes, Stmt.letTys] at hlocal
    simp only [Stmt.resolve, Traced.value_bind, Traced.value_pure, Stmt.places]
    have hiterable := iterable.resolve_sound hr hlocal.casts henv none nofun hlocal.nodes.left
    have helem := (hiterable _ (Expr.mem_visited _ _)).annotated.tyOrVoid.loopElement
    have hbody := body.places_resolve hr hret false _ (henv.push.declare var helem)
      hlocal.after
      ((σ.enter false).declare var (iterable.resolve r env none).value.tyOrVoid.loopElement)
      (congrArg (fun env : Env => env.push.declare var _) hσ)
    exact .visit hσ hiterable (.leave hσ henv false hbody.sound)
  | .switch span scrutinee cases, _, env, henv, hlocal, σ, hσ => by
    rw [Stmt.nodes, Stmt.letTys] at hlocal
    simp only [Stmt.resolve, Traced.value_bind, Traced.value_pure, Stmt.places]
    have hscrutinee := scrutinee.resolve_sound hr hlocal.casts henv none nofun hlocal.nodes.left
    exact .visit hσ hscrutinee (SwitchCase.placesList_resolve hr hret cases env henv
      (hscrutinee _ (Expr.mem_visited _ _)).annotated.ty hlocal.after σ hσ)
  | .breakLoop span, _, env, henv, _, σ, hσ | .continueLoop span, _, env, henv, _, σ, hσ => by
    simp only [Stmt.resolve, Traced.value_pure, Stmt.places]
    exact .pure hσ henv
  | .expr e, isTail, env, henv, hlocal, σ, hσ => by
    rw [Stmt.nodes] at hlocal
    simp only [Stmt.resolve, Traced.value_bind, Traced.value_pure, Stmt.places]
    refine .visit hσ (e.resolve_sound hr hlocal.casts henv _ (fun t ht => ?_) hlocal.nodes)
      (.pure hσ henv)
    cases isTail with
    | true => cases ht; exact hret
    | false => cases ht
  | .block body, _, env, henv, hlocal, σ, hσ => by
    rw [Stmt.nodes, Stmt.letTys] at hlocal
    simp only [Stmt.resolve, Traced.value_bind, Traced.value_pure, Stmt.places]
    exact body.places_resolve hr hret false env henv hlocal σ hσ

/-- The places of resolved statements are sound. -/
theorem Stmt.placesList_resolve (hr : r.TypesExpand) (hret : ret.PartsExpand r) :
    (ss : List Stmt) → (env : Env) → TypesExpandIn r env →
      LocalTypesExpand r source (Stmt.letTysList ss) (Stmt.nodesList ss) →
      (σ : Scopes) → σ.typed = env →
      ∀ pl ∈ (Stmt.placesList r σ (Stmt.resolveList r ret env ss).value).trace,
        pl.node.Sound r pl.scopes.typed source
  | [], _, _, _, _, _ => List.forall_mem_nil _
  | s :: ss, env, henv, hlocal, σ, hσ => by
    rw [Stmt.nodesList, Stmt.letTysList] at hlocal
    simp only [Stmt.resolveList, Traced.value_bind, Traced.value_pure, Stmt.placesList,
      Traced.trace_bind]
    have hs := s.places_resolve hr hret false env henv hlocal.left σ hσ
    exact List.forall_mem_append.2 ⟨hs.sound, Stmt.placesList_resolve hr hret ss _ hs.expands
      hlocal.right _ hs.typed⟩

/-- The places of a resolved block are sound. -/
theorem Block.places_resolve (hr : r.TypesExpand) (hret : ret.PartsExpand r) :
    (body : Block) → (inline : Bool) → (env : Env) → TypesExpandIn r env →
      LocalTypesExpand r source body.letTys body.nodes → (σ : Scopes) → σ.typed = env →
      Resolves r source ((body.resolve r ret env).value.places r σ inline) env
  | ⟨_, stmts⟩, inline, env, henv, hlocal, σ, hσ => by
    rw [Block.nodes, Block.letTys] at hlocal
    simp only [Block.resolve, Traced.value_bind, Traced.value_pure, Block.places]
    exact .leave hσ henv inline (Stmt.placesList_resolve hr hret stmts _ henv.push hlocal _
      (congrArg Scope.push hσ))

/-- The places of a resolved optional block are sound. -/
theorem Block.places?_resolve (hr : r.TypesExpand) (hret : ret.PartsExpand r) :
    (body : Option Block) → (env : Env) → TypesExpandIn r env →
      LocalTypesExpand r source (Block.letTys? body) (Block.nodes? body) →
      (σ : Scopes) → σ.typed = env →
      Resolves r source (Block.places? r σ (Block.resolve? r ret env body).value) env
  | none, _, henv, _, _, hσ => .pure hσ henv
  | some body, env, henv, hlocal, σ, hσ => by
    rw [Block.nodes?, Block.letTys?] at hlocal
    simp only [Block.resolve?, Traced.value_bind, Traced.value_pure, Block.places?]
    exact body.places_resolve hr hret _ env henv hlocal σ hσ

/-- The places of the resolved cases of a switch are sound. -/
theorem SwitchCase.placesList_resolve (hr : r.TypesExpand) (hret : ret.PartsExpand r) :
    (cases : List SwitchCase) → (env : Env) → TypesExpandIn r env → {scrutineeTy : Option Ty} →
      (∀ t ∈ scrutineeTy, t.PartsExpand r) →
      LocalTypesExpand r source (SwitchCase.letTysList cases) (SwitchCase.nodesList cases) →
      (σ : Scopes) → σ.typed = env →
      Resolves r source
        (SwitchCase.placesList r σ (SwitchCase.resolveList r ret env scrutineeTy cases).value) env
  | [], _, henv, _, _, _, _, hσ => .pure hσ henv
  | ⟨_, value, body, _⟩ :: cases, env, henv, scrutineeTy, hty, hlocal, σ, hσ => by
    rw [SwitchCase.nodesList, SwitchCase.letTysList] at hlocal
    simp only [SwitchCase.resolveList, Traced.value_bind, Traced.value_pure, SwitchCase.placesList]
    have hbody := fun inline => Resolves.leave hσ henv inline
      (Stmt.placesList_resolve hr hret body _ henv.push hlocal.after.left
        (σ.enter inline) (congrArg Scope.push hσ))
    have hcases := (hbody (isEmptyCase (Stmt.resolveList r ret env.push body).value)).bind
      (f := fun σ => SwitchCase.placesList r σ _)
      (SwitchCase.placesList_resolve hr hret cases env henv hty
        hlocal.after.right _ (hbody _).typed)
    rw [Traced.bind_assoc] at hcases
    exact .visit? hσ (Expr.resolve?_sound hr hlocal.casts henv value hty hlocal.nodes.left) hcases

end

/-- The places of a resolved function body are sound. -/
theorem Stmt.placesBody_resolve (hr : r.TypesExpand) (hret : ret.PartsExpand r) (ss : List Stmt) :
    ∀ (env : Env), TypesExpandIn r env →
      LocalTypesExpand r source (Stmt.letTysList ss) (Stmt.nodesList ss) →
      ∀ σ : Scopes, σ.typed = env →
      ∀ pl ∈ (Stmt.placesList r σ (Stmt.resolveBody r ret env ss).value).trace,
        pl.node.Sound r pl.scopes.typed source := by
  induction ss with
  | nil => exact fun _ _ _ _ _ => List.forall_mem_nil _
  | cons s ss ih =>
    intro env henv hlocal σ hσ
    rw [Stmt.nodesList, Stmt.letTysList] at hlocal
    have hs := fun isTail =>
      s.places_resolve hr hret isTail env henv hlocal.left σ hσ
    cases ss with
    | nil =>
      simp only [Stmt.resolveBody, Traced.value_bind, Traced.value_pure,
        Stmt.placesList_singleton]
      exact (hs _).sound
    | cons s' ss =>
      rw [Stmt.resolveBody_cons r env ret s (List.cons_ne_nil _ _)]
      simp only [Traced.value_bind, Traced.value_pure, Stmt.placesList, Traced.trace_bind]
      exact List.forall_mem_append.2 ⟨(hs false).sound, ih _ (hs false).expands
        hlocal.right _ (hs false).typed⟩

end

/-! ## Functions -/

/-- The types that a function writes: those of its parameters, its result, its variables and its
casts. -/
def FunctionDecl.writtenTys (f : FunctionDecl) : List Ty :=
  f.params.map (·.ty) ++ (f.ret :: (Stmt.letTysList f.body.stmts ++ f.nodes.filterMap Expr.castTy?))

section
variable {r : Registry}

/-- The types of the variables at the start of a function expand if those of its parameters do. -/
theorem FunctionDecl.env_expands (hr : r.TypesExpand) (owner : Option String) (f : FunctionDecl)
    (hparams : ∀ p ∈ f.params, p.ty.PartsExpand r) : TypesExpandIn r (f.env r owner) := by
  have hfold : ∀ (params : List Param) (env : Env), (∀ p ∈ params, p.ty.PartsExpand r) →
      TypesExpandIn r env → TypesExpandIn r
        (params.foldl (fun env p => env.declare p.name (r.normalize p.ty)) env) := by
    intro params
    induction params with
    | nil => exact fun _ _ h => h
    | cons p params ih =>
      intro env hps henv
      obtain ⟨hp, hps⟩ := List.forall_mem_cons.1 hps
      exact ih _ hps (henv.declare p.name hp.normalize)
  refine hfold f.params _ hparams ?_
  have hempty : TypesExpandIn r Scope.empty := fun _ _ ht => nomatch ht
  cases owner with
  | none => exact hempty
  | some owner => exact hempty.declare receiverName (hr.aggregate owner)

/-- The places of a resolved function are sound. -/
theorem FunctionDecl.places_sound (hr : r.TypesExpand) (owner : Option String) (f : FunctionDecl)
    (h : ∀ t ∈ f.writtenTys, t.Expands r) :
    ∀ pl ∈ (f.resolve r owner).value.places r owner, pl.node.Sound r pl.scopes.typed f.nodes := by
  obtain ⟨hparams, h⟩ := List.forall_mem_append.1 h
  obtain ⟨hret, h⟩ := List.forall_mem_cons.1 h
  obtain ⟨hlets, hcasts⟩ := List.forall_mem_append.1 h
  have henv := f.env_expands hr owner fun p hp =>
    .whole (hparams p.ty (List.mem_map_of_mem hp))
  have hlocal : LocalTypesExpand r f.nodes (Stmt.letTysList f.body.stmts) f.nodes :=
    ⟨hlets, fun e he ty hty => hcasts ty (List.mem_filterMap.2 ⟨e, he, hty⟩), fun _ he => he⟩
  exact Stmt.placesBody_resolve hr (PartsExpand.whole hret).normalize f.body.stmts _ henv hlocal _
    rfl

end

/-! ## Programs -/

/-- What is found in a list is in the list. -/
theorem mem_of_findLast? {α : Type} {q : α → Bool} {xs : List α} {x : α}
    (h : findLast? q xs = some x) : x ∈ xs :=
  List.mem_reverse.1 (List.mem_of_find?_eq_some h)

namespace Program

variable (p : Program)

/-- The types that a program declares: its aliases, and the types of its fields, variants, functions
and methods, with the types written in their bodies. -/
def declaredTys : List Ty :=
  p.aliases.map (fun a => .aggregate a.name) ++
    (p.structs.flatMap (·.fields.map (·.ty)) ++
      (p.enums.flatMap (·.variants.flatMap (·.shape.payload)) ++
        p.bodies.flatMap FunctionDecl.writtenTys))

/-- The declared types expand within the bound on the depth of aliases. -/
def TypesExpand : Prop :=
  ∀ t ∈ p.declaredTys, t.Expands (.ofProgram p)

instance : Decidable p.TypesExpand :=
  inferInstanceAs (Decidable (∀ t ∈ p.declaredTys, t.Expands (.ofProgram p)))

variable {p}

/-- The types that a function writes expand if those of the program do. -/
theorem TypesExpand.writtenTys (h : p.TypesExpand) {f : FunctionDecl} (hf : f ∈ p.bodies) :
    ∀ t ∈ f.writtenTys, t.Expands (.ofProgram p) := by
  intro t ht
  refine h t ?_
  simp only [declaredTys, List.mem_append, List.mem_flatMap]
  exact .inr (.inr (.inr ⟨f, hf, ht⟩))

/-- The types in the signature of a function expand if those of the program do. -/
theorem TypesExpand.sig (h : p.TypesExpand) {f : FunctionDecl} (hf : f ∈ p.bodies) :
    f.sig.Expands (.ofProgram p) := by
  have hwritten := h.writtenTys hf
  obtain ⟨hparams, hrest⟩ := List.forall_mem_append.1 hwritten
  exact ⟨fun t ht => .whole (hparams t ht), .whole (hrest f.ret (.head _))⟩

/-- A name expands if it is no alias or an alias that expands. -/
theorem TypesExpand.name (h : p.TypesExpand) (name : String) :
    (Ty.aggregate name).Expands (.ofProgram p) := by
  cases halias : (Registry.ofProgram p).alias? name with
  | some target =>
    obtain ⟨d, hd, -, rfl, -⟩ := Registry.aliasDecl?_of_alias? halias
    exact h _ (List.mem_append_left _ (List.mem_map_of_mem hd))
  | none =>
    change Ty.ExpandsIn _ (Registry.maxAliasDepth + 1) _
    rw [Ty.expandsIn_succ, Registry.layer, halias]
    exact List.forall_mem_nil _

/-- If the declared types of a program expand, so do the types that its registry gives to names. -/
theorem TypesExpand.registry (h : p.TypesExpand) : (Registry.ofProgram p).TypesExpand where
  names := h.name
  fields := by
    intro name field t ht
    obtain ⟨s, hs, ht⟩ := Option.bind_eq_some_iff.1 ht
    obtain ⟨f, hf, ht⟩ := Option.bind_eq_some_iff.1 ht
    obtain rfl := Option.some.inj ht
    refine .whole (h _ (List.mem_append_right _ (List.mem_append_left _ ?_)))
    exact List.mem_flatMap.2 ⟨s, mem_of_findLast? hs,
      List.mem_map_of_mem (List.mem_of_find?_eq_some hf)⟩
  payloads := by
    intro enumName variant ts hts t ht
    obtain ⟨shape, hshape, rfl⟩ := Option.map_eq_some_iff.1 hts
    obtain ⟨e, he, hshape⟩ := Option.bind_eq_some_iff.1 hshape
    obtain ⟨v, hv, hshape⟩ := Option.bind_eq_some_iff.1 hshape
    obtain rfl := Option.some.inj hshape
    refine .whole (h _ (List.mem_append_right _ (List.mem_append_right _
      (List.mem_append_left _ ?_))))
    exact List.mem_flatMap.2 ⟨e, mem_of_findLast? he,
      List.mem_flatMap.2 ⟨v, List.mem_of_find?_eq_some hv, ht⟩⟩
  functions := by
    intro name sig hsig
    obtain ⟨entry, hentry, rfl⟩ := Option.map_eq_some_iff.1 hsig
    obtain ⟨f, hf, rfl⟩ := List.mem_map.1 (mem_of_findLast? hentry)
    exact h.sig (List.mem_append_right _ hf)
  methods := by
    intro target name sig hsig
    obtain ⟨entry, hentry, rfl⟩ := Option.map_eq_some_iff.1 hsig
    obtain ⟨b, hb, hentry⟩ := List.mem_flatMap.1 (mem_of_findLast? hentry)
    obtain ⟨f, hf, rfl⟩ := List.mem_map.1 hentry
    exact h.sig (List.mem_append_left _ (List.mem_flatMap.2 ⟨b, hb, hf⟩))

end Program

end Oxidize
