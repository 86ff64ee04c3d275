import Oxidize.Emit.Stmt
import Oxidize.Proofs.Visited

/-!
# Where passes come to expressions

Type resolution, the usage walk and emission go through a function body with a scope chain each.
`FunctionDecl.places` lists the expressions they come to, in the order of the text, each with the
three scopes at that point. The chains are opened and closed differently: emission has no frame for
a conditional that continues a chain and for a case without statements, and type resolution goes
back to the scope it had where the others close a frame.

`FunctionDecl.places_visits` says that the chains agree at every place on which names are variables,
the name of a receiver apart, that the variables among the places are those that the usage walk
reads or writes, and that the method calls of the body are among the places.
-/

namespace Oxidize

/-! ## Scopes of three passes -/

/-- Passes that take the same names for variables still do after a declaration in both. -/
theorem SameLocals.declare {env : Env} {b : Bindings} (h : SameLocals env.isLocal b.isLocal)
    (name : String) (ty : Ty) :
    SameLocals (env.declare name ty).isLocal (b.declare name).isLocal := by
  intro other hother
  have hlocal := h other hother
  simp only [Scope.isLocal, Bindings.isLocal] at hlocal ⊢
  rw [Scope.lookup?_declare, Bindings.declare, Scope.lookup?_declare]
  split
  · rfl
  · exact hlocal

/-- The scopes of type resolution, the usage walk and emission at one point. -/
structure Scopes where
  typed : Env
  walked : Bindings
  emitted : Bindings

namespace Scopes

/-- A variable declared in all passes. -/
def declare (σ : Scopes) (name : String) (ty : Ty) : Scopes :=
  ⟨σ.typed.declare name ty, σ.walked.declare name, σ.emitted.declare name⟩

/-- The scopes inside a block. Emission opens no frame for one that it writes `inline`. -/
def enter (σ : Scopes) (inline : Bool) : Scopes :=
  ⟨σ.typed.push, σ.walked.push, if inline then σ.emitted else σ.emitted.push⟩

/-- The scopes after a block, from those before it and those at its end. -/
def leave (σ : Scopes) (inline : Bool) (inner : Scopes) : Scopes :=
  ⟨σ.typed, inner.walked.pop, if inline then inner.emitted else inner.emitted.pop⟩

/-- The passes take the same names for variables, the name of a receiver apart, and the usage walk
and emission number them alike. -/
structure Agree (σ : Scopes) : Prop where
  locals : SameLocals σ.typed.isLocal σ.walked.isLocal
  bindings : σ.emitted.Agree σ.walked

namespace Agree

variable {σ : Scopes}

/-- The passes still agree after a declaration. -/
theorem declare (h : σ.Agree) (name : String) (ty : Ty) : (σ.declare name ty).Agree where
  locals := h.locals.declare name ty
  bindings := h.bindings.declare name

/-- The passes still agree inside a block. -/
theorem enter (h : σ.Agree) (inline : Bool) : (σ.enter inline).Agree where
  locals := h.locals
  bindings := by
    cases inline with
    | true => exact h.bindings.push_right
    | false => exact h.bindings.push

/-- After a block the scopes of the usage walk and of emission are those before it again. -/
theorem leave (h : σ.Agree) {inline : Bool} {inner : Scopes} (hinner : inner.Agree)
    (hwalked : inner.walked.pop.scope = σ.walked.scope)
    (hemitted : (σ.leave inline inner).emitted.scope = σ.emitted.scope) :
    (σ.leave inline inner).Agree where
  locals := by
    intro name hname
    rw [Scopes.leave, Bindings.isLocal, hwalked]
    exact h.locals name hname
  bindings := by
    refine h.bindings.of_scope hemitted hwalked ?_
    cases inline <;> exact hinner.bindings.declared

end Agree

end Scopes

/-! ## Places -/

/-- An expression that passes come to, with their scopes there. -/
structure Place where
  scopes : Scopes
  node : Expr

/-- The places of an expression at one point. -/
def Scopes.visit (σ : Scopes) (e : Expr) : Traced Place Unit :=
  .tellAll ((e.visited σ.typed.isLocal).map (Place.mk σ))

/-- The places of an optional expression at one point. -/
def Scopes.visit? (σ : Scopes) : Option Expr → Traced Place Unit
  | none => return ()
  | some e => σ.visit e

/-- Statements that are a single conditional: as an alternative they continue the chain. -/
def isChained : List Stmt → Bool
  | [.ifElse _ _ _ _] => true
  | _ => false

mutual

/-- The places of a resolved statement, and the scopes after it. -/
def Stmt.places (r : Registry) (σ : Scopes) : Stmt → Traced Place Scopes
  | .letVar _ name ty _ init => do
    σ.visit? init
    return σ.declare name (((ty.map r.normalize) <|> init.bind (·.ty)).getD .void)
  | .assign _ target value => do
    σ.visit target
    σ.visit value
    return σ
  | .ret _ value => do
    σ.visit? value
    return σ
  | .ifElse _ cond thenBlock elseBlock => do
    σ.visit cond
    let σ ← thenBlock.places r σ false
    Block.places? r σ elseBlock
  | .whileLoop _ cond body => do
    σ.visit cond
    body.places r σ false
  | .forEach _ var iterable body => do
    σ.visit iterable
    let inner ← body.places r
      ((σ.enter false).declare var iterable.tyOrVoid.loopElement) false
    return σ.leave false inner
  | .switch _ scrutinee cases => do
    σ.visit scrutinee
    SwitchCase.placesList r σ cases
  | .breakLoop _ | .continueLoop _ => return σ
  | .expr e => do
    σ.visit e
    return σ
  | .block body => body.places r σ false

/-- The places of statements in sequence. -/
def Stmt.placesList (r : Registry) (σ : Scopes) : List Stmt → Traced Place Scopes
  | [] => return σ
  | s :: ss => do
    let σ ← s.places r σ
    Stmt.placesList r σ ss

/-- The places of a block. -/
def Block.places (r : Registry) (σ : Scopes) (inline : Bool) : Block → Traced Place Scopes
  | ⟨_, stmts⟩ => do
    let inner ← Stmt.placesList r (σ.enter inline) stmts
    return σ.leave inline inner

/-- The places of the alternative of a conditional. -/
def Block.places? (r : Registry) (σ : Scopes) : Option Block → Traced Place Scopes
  | none => return σ
  | some body => body.places r σ (isChained body.stmts)

/-- The places of the cases of a switch. -/
def SwitchCase.placesList (r : Registry) (σ : Scopes) : List SwitchCase → Traced Place Scopes
  | [] => return σ
  | ⟨_, value, body, _⟩ :: cases => do
    σ.visit? value
    let inner ← Stmt.placesList r (σ.enter (isEmptyCase body)) body
    SwitchCase.placesList r (σ.leave (isEmptyCase body) inner) cases

end

/-! ## Rules -/

/-- The variable that the usage walk finds at a place. -/
def Place.walked? (pl : Place) : Option BindingId :=
  pl.node.boundId? pl.scopes.walked

/-- The variable that emission finds at a place. -/
def Place.emitted? (pl : Place) : Option BindingId :=
  pl.node.boundId? pl.scopes.emitted

/-- From scopes `σ` the places are those of the usage walk over statements with the given
expressions: the scopes agree at every place and at the end, the variables are those that the walk
reads or writes, and the method calls are among the places. -/
structure Visits (σ : Scopes) (nodes : List Expr) (out : Traced Place Scopes) (walk : Walking) :
    Prop where
  walked : out.value.walked = walk.value
  agree : out.value.Agree
  outer : out.value.emitted.scope.outer = σ.emitted.scope.outer
  places : ∀ pl ∈ out.trace, pl.scopes.Agree
  accessed : accessedIn walk.trace = out.trace.filterMap Place.walked?
  calls : CallsAmong (out.trace.map Place.node) nodes

/-- Besides, emission has the scope at the end that it had at the start. -/
structure Encloses (σ : Scopes) (nodes : List Expr) (out : Traced Place Scopes) (walk : Walking) :
    Prop extends Visits σ nodes out walk where
  scope : out.value.emitted.scope = σ.emitted.scope

section
variable {σ : Scopes} {nodes nodes' : List Expr} {out : Traced Place Scopes} {walk : Walking}
  {f : Scopes → Traced Place Scopes} {g : Bindings → Walking} {r : Option Registry}

/-- Where nothing is visited, the scopes stay as they are. -/
theorem Encloses.pure (h : σ.Agree) : Encloses σ [] (Pure.pure σ) (Pure.pure σ.walked) where
  walked := rfl
  agree := h
  outer := rfl
  places := List.forall_mem_nil _
  accessed := rfl
  calls := .nil
  scope := rfl

/-- Two walks in a row visit the places of both. -/
theorem Visits.bind (h : Visits σ nodes out walk)
    (hf : Visits out.value nodes' (f out.value) (g out.value.walked)) :
    Visits σ (nodes ++ nodes') (out >>= f) (walk >>= g) where
  walked := by rw [Traced.value_bind, Traced.value_bind, ← h.walked, hf.walked]
  agree := hf.agree
  outer := hf.outer.trans h.outer
  places := List.forall_mem_append.2 ⟨h.places, hf.places⟩
  accessed := by
    rw [Traced.trace_bind, Traced.trace_bind, accessedIn_append, List.filterMap_append, h.accessed,
      ← h.walked, hf.accessed]
  calls := by
    rw [Traced.trace_bind, List.map_append]
    exact h.calls.append hf.calls

/-- Two walks in a row enclose the places of both. -/
theorem Encloses.bind (h : Encloses σ nodes out walk)
    (hf : Encloses out.value nodes' (f out.value) (g out.value.walked)) :
    Encloses σ (nodes ++ nodes') (out >>= f) (walk >>= g) where
  toVisits := h.toVisits.bind hf.toVisits
  scope := hf.scope.trans h.scope

/-- What the walk finds in an expression comes before the rest. -/
theorem Visits.visit {e : Expr} {events : List UsageEvent} (hσ : σ.Agree)
    (hevents : accessedIn events =
      (e.visited σ.typed.isLocal).filterMap (·.boundId? σ.walked))
    (h : Visits σ nodes out walk) :
    Visits σ (e.nodes ++ nodes) (σ.visit e >>= fun _ => out)
      (Traced.tellAll events >>= fun _ => walk) where
  walked := h.walked
  agree := h.agree
  outer := h.outer
  places := List.forall_mem_append.2 ⟨List.forall_mem_map.2 fun _ _ => hσ, h.places⟩
  accessed := by
    rw [Traced.trace_bind, Traced.trace_bind, accessedIn_append, List.filterMap_append, h.accessed,
      Scopes.visit, Traced.tellAll, Traced.tellAll, hevents, List.filterMap_map]
    rfl
  calls := by
    have hnodes : ((e.visited σ.typed.isLocal).map (Place.mk σ)).map Place.node =
        e.visited σ.typed.isLocal := by
      rw [List.map_map]
      exact List.map_id _
    rw [Traced.trace_bind, List.map_append, Scopes.visit, Traced.tellAll, hnodes]
    exact (e.visited_calls _).append h.calls

/-- Nothing comes after the last expression. -/
theorem Visits.last (h : Visits σ (nodes ++ []) out walk) : Visits σ nodes out walk := by
  rwa [List.append_nil] at h

/-- An expression that is read is visited before the rest. -/
theorem Visits.read (hσ : σ.Agree) (e : Expr) (pos : ReadPosition) (h : Visits σ nodes out walk) :
    Visits σ (e.nodes ++ nodes) (σ.visit e >>= fun _ => out)
      (Traced.tellAll (e.usage r σ.walked pos) >>= fun _ => walk) :=
  h.visit hσ (e.usage_accessed r hσ.locals pos)

/-- An optional expression that is read is visited before the rest. -/
theorem Visits.read? (hσ : σ.Agree) (e : Option Expr) (pos : ReadPosition)
    (h : Visits σ nodes out walk) :
    Visits σ (Expr.nodes? e ++ nodes) (σ.visit? e >>= fun _ => out)
      (Traced.tellAll (Expr.usage? r σ.walked pos e) >>= fun _ => walk) := by
  cases e with
  | none => exact h
  | some e => exact h.read hσ e pos

/-- A bare name that is assigned to is written, and any other target is read. -/
theorem Visits.target (hσ : σ.Agree) (target : Expr) (h : Visits σ nodes out walk) :
    Visits σ (target.nodes ++ nodes) (σ.visit target >>= fun _ => out)
      (Traced.tellAll (target.placeUsage r σ.walked) >>= fun _ => walk) := by
  refine h.visit hσ ?_
  unfold Expr.placeUsage
  obtain ⟨span, kind, ty⟩ := target
  cases kind with
  | ident name =>
    simp only [Expr.ident?, Expr.visited, ExprKind.visited, List.filterMap_cons, List.filterMap_nil,
      Expr.boundId?, Option.bind_some]
    cases σ.walked.lookup? name <;> rfl
  | _ =>
    dsimp only [Expr.ident?]
    rw [accessedIn_append, accessedIn_mutationEvents, List.nil_append]
    exact Expr.usage_accessed r hσ.locals _ .borrow

/-- An expression that is read keeps the scope of emission. -/
theorem Encloses.read (hσ : σ.Agree) (e : Expr) (pos : ReadPosition)
    (h : Encloses σ nodes out walk) :
    Encloses σ (e.nodes ++ nodes) (σ.visit e >>= fun _ => out)
      (Traced.tellAll (e.usage r σ.walked pos) >>= fun _ => walk) where
  toVisits := h.toVisits.read hσ e pos
  scope := h.scope

/-- An optional expression that is read keeps the scope of emission. -/
theorem Encloses.read? (hσ : σ.Agree) (e : Option Expr) (pos : ReadPosition)
    (h : Encloses σ nodes out walk) :
    Encloses σ (Expr.nodes? e ++ nodes) (σ.visit? e >>= fun _ => out)
      (Traced.tellAll (Expr.usage? r σ.walked pos e) >>= fun _ => walk) where
  toVisits := h.toVisits.read? hσ e pos
  scope := h.scope

/-- A declaration comes before the rest. -/
theorem Visits.declared {name : String} {ty : Ty} (ty' : Ty) (isParam : Bool)
    (h : Visits (σ.declare name ty) nodes out (g (σ.walked.declare name))) :
    Visits σ nodes out (σ.walked.walkDeclare name ty' isParam >>= g) where
  walked := h.walked
  agree := h.agree
  outer := h.outer
  places := h.places
  accessed := h.accessed
  calls := h.calls

/-- A block closes on both sides the frames that it opens. -/
theorem Visits.framed (hσ : σ.Agree) {inline : Bool} (h : Visits (σ.enter inline) nodes out walk)
    (hwalk : Walks σ.walked.push walk)
    (hinline : inline = true → out.value.emitted.scope = σ.emitted.scope) :
    Encloses σ nodes (out >>= fun inner => Pure.pure (σ.leave inline inner))
      (walk >>= fun b => Pure.pure b.pop) := by
  have hemitted : (σ.leave inline out.value).emitted.scope = σ.emitted.scope := by
    cases inline with
    | true => exact hinline rfl
    | false => exact Scope.pop_eq_of_outer h.outer
  have hwalked : out.value.walked.pop.scope = σ.walked.scope := by
    rw [h.walked]
    exact hwalk.scope_pop
  exact {
    walked := congrArg Bindings.pop h.walked
    agree := hσ.leave h.agree hwalked hemitted
    outer := congrArg Scope.outer hemitted
    places := by simpa using h.places
    accessed := by simpa using h.accessed
    calls := by simpa using h.calls
    scope := hemitted }

/-! ## Statements -/

/-- A conditional opens and closes frames only. -/
theorem encloses_ifElse (hσ : σ.Agree) (span : Span) (cond : Expr) {thenBlock : Block}
    {elseBlock : Option Block} {registry : Registry}
    (hthen : Encloses σ thenBlock.nodes (thenBlock.places registry σ false)
      (thenBlock.usage r σ.walked))
    (helse : ∀ σ : Scopes, σ.Agree → Encloses σ (Block.nodes? elseBlock)
      (Block.places? registry σ elseBlock) (Block.usage? r σ.walked elseBlock)) :
    Encloses σ (Stmt.ifElse span cond thenBlock elseBlock).nodes
      ((Stmt.ifElse span cond thenBlock elseBlock).places registry σ)
      ((Stmt.ifElse span cond thenBlock elseBlock).usage r σ.walked) := by
  rw [Stmt.nodes, Stmt.places, Stmt.usage]
  exact .read hσ cond .borrow (hthen.bind (helse _ hthen.agree))

end

section
variable (registry : Registry) (r : Option Registry)

/-- A single statement has the places that it has alone. -/
theorem Stmt.placesList_singleton (σ : Scopes) (s : Stmt) :
    Stmt.placesList registry σ [s] = s.places registry σ := by
  rw [Stmt.placesList]
  exact congrArg (Traced.mk _) (List.append_nil _)

/-- A case without statements. -/
theorem Stmt.placesList_of_isEmptyCase (σ : Scopes) {ss : List Stmt} (h : isEmptyCase ss = true) :
    Stmt.placesList registry σ ss = pure σ := by
  unfold isEmptyCase at h
  split at h
  · rfl
  · rfl
  · cases h

/-- The body of a case closes on both sides the frames that it opens. -/
theorem Visits.caseBody {σ : Scopes} {body : List Stmt} (h : σ.Agree)
    (hbody : Visits (σ.enter (isEmptyCase body)) (Stmt.nodesList body)
      (Stmt.placesList registry (σ.enter (isEmptyCase body)) body)
      (Stmt.usageList r (σ.enter (isEmptyCase body)).walked body)) :
    Encloses σ (Stmt.nodesList body)
      (Stmt.placesList registry (σ.enter (isEmptyCase body)) body >>= fun inner =>
        pure (σ.leave (isEmptyCase body) inner))
      (Stmt.usageList r σ.walked.push body >>= fun b => pure b.pop) := by
  refine hbody.framed h (Stmt.usageList_walks r body _) fun hempty => ?_
  rw [Stmt.placesList_of_isEmptyCase _ _ hempty, hempty]
  rfl

mutual

/-- The places of a statement are those of the usage walk over it. -/
theorem Stmt.places_visits :
    (s : Stmt) → (σ : Scopes) → σ.Agree →
      Visits σ s.nodes (s.places registry σ) (s.usage r σ.walked)
  | .letVar _ name ty _ init, σ, h => by
    rw [Stmt.nodes, Stmt.places, Stmt.usage]
    have hdecl := (Encloses.pure (h.declare name
      (((ty.map registry.normalize) <|> init.bind (·.ty)).getD .void))).toVisits
    exact .last (.read? h init .value
      (hdecl.declared (g := pure) ((ty <|> init.bind (·.ty)).getD .void) false))
  | .assign _ target value, σ, h => by
    rw [Stmt.nodes, Stmt.places, Stmt.usage]
    exact .target h target (.last (.read h value .value (Encloses.pure h).toVisits))
  | .ret _ value, σ, h => by
    rw [Stmt.nodes, Stmt.places, Stmt.usage]
    exact .last (.read? h value .value (Encloses.pure h).toVisits)
  | .ifElse span cond thenBlock elseBlock, σ, h =>
    (encloses_ifElse h span cond (thenBlock.places_encloses σ h)
      (Block.places?_encloses elseBlock)).toVisits
  | .whileLoop _ cond body, σ, h => by
    rw [Stmt.nodes, Stmt.places, Stmt.usage]
    exact .read h cond .borrow (body.places_encloses σ h).toVisits
  | .forEach _ var iterable body, σ, h => by
    rw [Stmt.nodes, Stmt.places, Stmt.usage]
    have hbody := (body.places_encloses _ ((h.enter false).declare var
      iterable.tyOrVoid.loopElement)).toVisits.declared (g := fun b => body.usage r b)
        iterable.tyOrVoid.loopElement false
    have hwalk := Walks.bind (f := fun b => body.usage r b)
      (.declare σ.walked.push var iterable.tyOrVoid.loopElement false) (body.usage_walks r _)
    refine .read h iterable .borrow ?_
    rw [← Traced.bind_assoc]
    exact (hbody.framed h hwalk nofun).toVisits
  | .switch _ scrutinee cases, σ, h => by
    rw [Stmt.nodes, Stmt.places, Stmt.usage]
    exact .read h scrutinee .borrow (SwitchCase.placesList_encloses cases σ h).toVisits
  | .breakLoop _, σ, h | .continueLoop _, σ, h => (Encloses.pure h).toVisits
  | .expr e, σ, h => by
    rw [Stmt.nodes, Stmt.places, Stmt.usage]
    exact .last (.read h e .value (Encloses.pure h).toVisits)
  | .block body, σ, h => (body.places_encloses σ h).toVisits

/-- The places of statements are those of the walk over them. -/
theorem Stmt.placesList_visits :
    (ss : List Stmt) → (σ : Scopes) → σ.Agree →
      Visits σ (Stmt.nodesList ss) (Stmt.placesList registry σ ss) (Stmt.usageList r σ.walked ss)
  | [], σ, h => (Encloses.pure h).toVisits
  | s :: ss, σ, h => by
    have hs := s.places_visits σ h
    exact hs.bind (Stmt.placesList_visits ss _ hs.agree)

/-- The places of a block are those of the walk over it, and emission is in the same scope behind
it. -/
theorem Block.places_encloses :
    (body : Block) → (σ : Scopes) → σ.Agree →
      Encloses σ body.nodes (body.places registry σ false) (body.usage r σ.walked)
  | ⟨_, stmts⟩, _, h =>
    (Stmt.placesList_visits stmts _ (h.enter false)).framed h (Stmt.usageList_walks r stmts _) nofun

/-- A conditional that continues the chain is emitted in the frame around it, and it leaves that
frame as it was. -/
theorem Block.places?_encloses :
    (body : Option Block) → (σ : Scopes) → σ.Agree →
      Encloses σ (Block.nodes? body) (Block.places? registry σ body) (Block.usage? r σ.walked body)
  | none, _, h => .pure h
  | some ⟨_, stmts⟩, _, h => by
    refine (Stmt.placesList_visits stmts _ (h.enter _)).framed h (Stmt.usageList_walks r stmts _)
      fun hchained => ?_
    match stmts with
    | [.ifElse span cond thenBlock elseBlock] =>
      rw [Stmt.placesList_singleton]
      exact (encloses_ifElse (r := r) (h.enter true) span cond
        (thenBlock.places_encloses _ (h.enter true))
        (Block.places?_encloses elseBlock)).scope

/-- The places of the cases of a switch are those of the walk over them, and emission is in the same
scope behind them. -/
theorem SwitchCase.placesList_encloses :
    (cases : List SwitchCase) → (σ : Scopes) → σ.Agree →
      Encloses σ (SwitchCase.nodesList cases) (SwitchCase.placesList registry σ cases)
        (SwitchCase.usageList r σ.walked cases)
  | [], σ, h => .pure h
  | ⟨_, value, body, _⟩ :: cases, σ, h => by
    rw [SwitchCase.nodesList, SwitchCase.placesList, SwitchCase.usageList]
    have hbody := Visits.caseBody registry r h
      (Stmt.placesList_visits body _ (h.enter (isEmptyCase body)))
    have hcases := hbody.bind (f := fun σ => SwitchCase.placesList registry σ cases)
      (g := fun b => SwitchCase.usageList r b cases)
      (SwitchCase.placesList_encloses cases _ hbody.agree)
    rw [Traced.bind_assoc, Traced.bind_assoc] at hcases
    exact .read? h value .borrow hcases

end

end

/-! ## Functions -/

namespace FunctionDecl

variable (registry : Registry) (owner : Option String) (f : FunctionDecl)

/-- The scopes at the start of a function. -/
def scopes : Scopes :=
  ⟨f.env registry owner, f.signatureBindings, f.signatureBindings⟩

/-- The places of a resolved function. -/
def places : List Place :=
  (Stmt.placesList registry (f.scopes registry owner) f.body.stmts).trace

/-- Only on the name of a receiver may a signature make the passes disagree: type resolution
declares it in every method block, the others where there is a receiver. -/
theorem scopes_agree : (f.scopes registry owner).Agree := by
  have hparams : ∀ (params : List Param) (env : Env) (b : Bindings),
      SameLocals env.isLocal b.isLocal →
      SameLocals
        (params.foldl (fun env p => env.declare p.name (registry.normalize p.ty)) env).isLocal
        ((params.map fun p => (p.name, p.ty)).foldl (fun b v => b.declare v.1) b).isLocal := by
    intro params
    induction params with
    | nil => exact fun _ _ h => h
    | cons p params ih => exact fun env b h => ih _ _ (h.declare p.name _)
  refine ⟨?_, .refl _⟩
  unfold scopes FunctionDecl.env signatureBindings signatureVars
  rw [List.foldl_append]
  refine hparams _ _ _ fun name hname => ?_
  cases owner <;> cases f.receiver <;>
    simp [Scope.isLocal, Bindings.isLocal, Scope.lookup?_declare, Bindings.declare, hname] <;> rfl

/-- The places of a function are those of the usage walk over it. -/
theorem places_visits (r : Option Registry) :
    Visits (f.scopes registry owner) f.nodes
      (Stmt.placesList registry (f.scopes registry owner) f.body.stmts)
      (Stmt.usageList r f.signatureBindings f.body.stmts) :=
  Stmt.placesList_visits registry r f.body.stmts _ (f.scopes_agree registry owner)

/-- The variables that the usage walk reads or writes are those at the places. -/
theorem accessedIn_usageEvents (r : Option Registry) :
    accessedIn (f.usageEvents r) = (f.places registry owner).filterMap Place.walked? := by
  have hsig : ∀ vars : List (String × Ty),
      accessedIn (vars.map fun v => .declare v.1 v.2 true) = [] := by
    intro vars
    induction vars with
    | nil => rfl
    | cons v vars ih => exact ih
  rw [usageEvents, accessedIn_append, hsig, List.nil_append]
  exact (f.places_visits registry owner r).accessed

end FunctionDecl

end Oxidize
