import Oxidize.Proofs.Usage.Rename

/-!
# Usage does not depend on names

The usage analysis tells variables apart by number, so their names should not matter.
`FunctionDecl.usage_renameVariable` says that renaming a parameter, a declared variable or the
variable of a loop to a name that is not in use changes nothing in the report but that name.

The two walks are compared along `Bindings.Renamed`. Where nothing is replaced, before the renamed
declaration and behind a later one of the same name, it is used with the new name in place of the
old one as well: then it only says that the new name is in nobody's way.
-/

namespace Oxidize

/-! ## Walks over expressions -/

/-- A name has the number in the second bindings, renamed, that it has in the first. A name that is
replaced belongs to a variable. -/
structure Bindings.Renamed (old new : String) (b b' : Bindings) : Prop where
  next : b'.next = b.next
  lookup : ∀ name, name ≠ new → b'.lookup? (renamed old new name) = b.lookup? name
  visible : old ≠ new → (b.lookup? old).isSome

namespace Bindings.Renamed

variable {old new : String} {b b' : Bindings}

/-- Bindings are their own renaming as long as nothing is renamed. -/
theorem refl (new : String) (b : Bindings) : b.Renamed new new b where
  next := rfl
  lookup name hname := by rw [renamed, if_neg hname]
  visible h := absurd rfl h

/-- A name that is not replaced. -/
theorem lookup_of_ne (h : b.Renamed old new b') {name : String} (hnew : name ≠ new)
    (hold : name ≠ old) : b'.lookup? name = b.lookup? name := by
  simpa [renamed, hold] using h.lookup name hnew

/-- A renamed variable is local if the variable is. -/
theorem isLocal (h : b.Renamed old new b') {name : String} (hnew : name ≠ new) :
    b'.isLocal (renamed old new name) = b.isLocal name :=
  congrArg Option.isSome (h.lookup name hnew)

/-- A new frame declares nothing, so the renaming goes on in it. -/
theorem push (h : b.Renamed old new b') : b.push.Renamed old new b'.push :=
  ⟨h.next, h.lookup, h.visible⟩

/-- Of a namespace no name is replaced. -/
theorem namespaceOf? (h : b.Renamed old new b') (tag : Option String) {object : Expr}
    (hobject : Avoids new object.nodes) :
    namespaceOf? tag (object.rename old new) b'.isLocal =
      Oxidize.namespaceOf? tag object b.isLocal := by
  cases tag with
  | some _ => rfl
  | none =>
    simp only [Oxidize.namespaceOf?, Expr.ident?_rename]
    cases hname : object.ident? with
    | none => rfl
    | some name =>
      have hnew : name ≠ new := fun heq => hobject.ident (heq ▸ hname)
      simp only [Option.map_some, h.isLocal hnew]
      by_cases hlocal : b.isLocal name
      · rw [if_pos hlocal, if_pos hlocal]
      · have hold : name ≠ old := by
          rintro rfl
          exact hlocal (h.visible hnew)
        rw [renamed, if_neg hold]

/-- Reading a renamed variable is the same event. -/
theorem readEvents (h : b.Renamed old new b') {name : String} (hnew : name ≠ new)
    (pos : ReadPosition) :
    readEvents b' (renamed old new name) pos = Oxidize.readEvents b name pos := by
  rw [Oxidize.readEvents, h.lookup name hnew, Oxidize.readEvents]

/-- Changing a renamed place is the same event. -/
theorem mutationEvents (h : b.Renamed old new b') {place : Expr}
    (hplace : Avoids new place.nodes) :
    mutationEvents b' (place.rename old new) = Oxidize.mutationEvents b place := by
  have hroot : (place.rename old new).root?.bind b'.lookup? = place.root?.bind b.lookup? := by
    rw [Expr.root?_rename]
    cases hname : place.root? with
    | none => rfl
    | some name => exact h.lookup name fun heq => hplace.root (heq ▸ hname)
  rw [Oxidize.mutationEvents, hroot, Oxidize.mutationEvents]

end Bindings.Renamed

/-- The positions of operands do not depend on names. -/
theorem ReadPosition.ofOperands_rename (old new : String) (op : BinOp) (left right : Expr) :
    ofOperands op (left.rename old new) (right.rename old new) = ofOperands op left right := by
  simp [ofOperands, BinOp.joinsText, Expr.isKnownText]

section
variable {old new : String} {b b' : Bindings} (r : Option Registry)

mutual

/-- An expression does the same to variables, whatever they are called. -/
theorem Expr.usage_rename (h : b.Renamed old new b') :
    (e : Expr) → (pos : ReadPosition) → Avoids new e.nodes →
      (e.rename old new).usage r b' pos = e.usage r b pos
  | ⟨_, .literal _, _⟩, _, _ | ⟨_, .variant _ _ none, _⟩, _, _ => rfl
  | ⟨_, .ident name, _⟩, pos, he => by
    rw [Expr.rename, ExprKind.rename, Expr.usage, Expr.usage]
    exact h.readEvents (fun heq => he.ident (heq ▸ rfl)) pos
  | ⟨_, .unary _ expr, _⟩, _, he | ⟨_, .cast expr _, _⟩, _, he
  | ⟨_, .field expr _ _, _⟩, _, he => by
    rw [Expr.nodes, ExprKind.nodes, avoids_cons] at he
    rw [Expr.rename, ExprKind.rename, Expr.usage, Expr.usage, expr.usage_rename h _ he.2]
  | ⟨_, .binary op left right, _⟩, _, he => by
    rw [Expr.nodes, ExprKind.nodes, avoids_cons, avoids_append] at he
    rw [Expr.rename, ExprKind.rename, Expr.usage, Expr.usage, ReadPosition.ofOperands_rename,
      left.usage_rename h _ he.2.1, right.usage_rename h _ he.2.2]
  | ⟨_, .index left right, _⟩, _, he => by
    rw [Expr.nodes, ExprKind.nodes, avoids_cons, avoids_append] at he
    rw [Expr.rename, ExprKind.rename, Expr.usage, Expr.usage, left.usage_rename h _ he.2.1,
      right.usage_rename h _ he.2.2]
  | ⟨_, .call _ items, _⟩, _, he | ⟨_, .array items, _⟩, _, he | ⟨_, .tuple items, _⟩, _, he
  | ⟨_, .variant _ _ (some items), _⟩, _, he => by
    rw [Expr.nodes, ExprKind.nodes, avoids_cons] at he
    rw [Expr.rename, ExprKind.rename, Expr.usage, Expr.usage, Expr.usageList_rename h items _ he.2]
  | ⟨_, .methodCall object method ns args objectTy, _⟩, _, he => by
    rw [Expr.nodes, ExprKind.nodes, avoids_cons, avoids_append] at he
    rw [Expr.rename, ExprKind.rename, Expr.usage, Expr.usage, h.namespaceOf? ns he.2.1,
      Expr.ty_rename, h.mutationEvents he.2.1, object.usage_rename h _ he.2.1]
    simp only [Expr.usageList_rename h args _ he.2.2]
  | ⟨_, .aggregate _ fields, _⟩, _, he => by
    rw [Expr.nodes, ExprKind.nodes, avoids_cons] at he
    rw [Expr.rename, ExprKind.rename, Expr.usage, Expr.usage,
      FieldInit.usageList_rename h fields he.2]
  | ⟨_, .ternary cond thenExpr elseExpr, _⟩, _, he => by
    rw [Expr.nodes, ExprKind.nodes, avoids_cons, avoids_append, avoids_append] at he
    rw [Expr.rename, ExprKind.rename, Expr.usage, Expr.usage, cond.usage_rename h _ he.2.1,
      thenExpr.usage_rename h _ he.2.2.1, elseExpr.usage_rename h _ he.2.2.2]

/-- The events of renamed expressions are those of the expressions. -/
theorem Expr.usageList_rename (h : b.Renamed old new b') :
    (es : List Expr) → (pos : ReadPosition) → Avoids new (Expr.nodesList es) →
      Expr.usageList r b' pos (Expr.renameList old new es) = Expr.usageList r b pos es
  | [], _, _ => rfl
  | e :: es, pos, he => by
    rw [Expr.nodesList, avoids_append] at he
    rw [Expr.renameList, Expr.usageList, Expr.usageList, e.usage_rename h pos he.1,
      Expr.usageList_rename h es pos he.2]

/-- The events of renamed fields are those of the fields. -/
theorem FieldInit.usageList_rename (h : b.Renamed old new b') :
    (fields : List FieldInit) → Avoids new (FieldInit.nodesList fields) →
      FieldInit.usageList r b' (FieldInit.renameList old new fields) =
        FieldInit.usageList r b fields
  | [], _ => rfl
  | ⟨_, value⟩ :: fields, he => by
    rw [FieldInit.nodesList, avoids_append] at he
    rw [FieldInit.renameList, FieldInit.usageList, FieldInit.usageList,
      value.usage_rename h .value he.1, FieldInit.usageList_rename h fields he.2]

end

/-- The events of a renamed optional expression are those of the expression. -/
theorem Expr.usage?_rename (h : b.Renamed old new b') (pos : ReadPosition) :
    (e : Option Expr) → Avoids new (Expr.nodes? e) →
      Expr.usage? r b' pos (e.map (·.rename old new)) = Expr.usage? r b pos e
  | none, _ => rfl
  | some e, he => e.usage_rename r h pos he

/-- The events of a renamed target are those of the target. -/
theorem Expr.placeUsage_rename (h : b.Renamed old new b') {target : Expr}
    (ht : Avoids new target.nodes) :
    (target.rename old new).placeUsage r b' = target.placeUsage r b := by
  rw [Expr.placeUsage, Expr.placeUsage, Expr.ident?_rename]
  cases hname : target.ident? with
  | none =>
    rw [Option.map_none, h.mutationEvents ht, target.usage_rename r h _ ht]
  | some name =>
    have hnew : name ≠ new := fun heq => ht.ident (heq ▸ hname)
    simp only [Option.map_some, h.lookup name hnew]

end

/-! ## The declarations of a walk -/

/-- Events that declare nothing leave the declared names as they are. -/
theorem declaredNames_bind {events : List UsageEvent} {b : Bindings} (h : AllInScope b events)
    (out : Walking) :
    (declaredVars (Traced.tellAll events >>= fun _ => out).trace).map (·.1) =
      (declaredVars out.trace).map (·.1) := by
  rw [Traced.trace_bind, declaredVars_append, Traced.tellAll, h.declaredVars_eq_nil, List.nil_append]

section
variable (r : Option Registry)

mutual

/-- The walk records the variables that a statement declares, in the order of the text. -/
theorem Stmt.declaredVars_usage : (s : Stmt) → (b : Bindings) →
    (declaredVars (s.usage r b).trace).map (·.1) = s.binders
  | .letVar _ name ty _ init, b => by
    rw [Stmt.usage, declaredNames_bind (Expr.usage?_inScope r b _ init)]
    rfl
  | .assign _ target value, b => by
    rw [Stmt.usage, declaredNames_bind (target.placeUsage_inScope r b),
      declaredNames_bind (value.usage_inScope r b _)]
    rfl
  | .ret _ value, b => by
    rw [Stmt.usage, declaredNames_bind (Expr.usage?_inScope r b _ value)]
    rfl
  | .ifElse _ cond thenBlock elseBlock, b => by
    rw [Stmt.usage, declaredNames_bind (cond.usage_inScope r b _), Traced.trace_bind,
      declaredVars_append, List.map_append, thenBlock.declaredVars_usage,
      Block.declaredVars_usage? elseBlock, Stmt.binders]
  | .whileLoop _ cond body, b => by
    rw [Stmt.usage, declaredNames_bind (cond.usage_inScope r b _), body.declaredVars_usage,
      Stmt.binders]
  | .forEach _ var iterable body, b => by
    rw [Stmt.usage, declaredNames_bind (iterable.usage_inScope r b _), Stmt.binders,
      ← body.declaredVars_usage (b.push.declare var)]
    simp [Bindings.walkDeclare, Traced.tell, declaredVars]
  | .switch _ scrutinee cases, b => by
    rw [Stmt.usage, declaredNames_bind (scrutinee.usage_inScope r b _),
      SwitchCase.declaredVars_usageList cases, Stmt.binders]
  | .breakLoop _, _ | .continueLoop _, _ => rfl
  | .expr e, b => by
    rw [Stmt.usage, declaredNames_bind (e.usage_inScope r b _)]
    rfl
  | .block body, b => body.declaredVars_usage b

/-- Statements declare their binders in the order of the text. -/
theorem Stmt.declaredVars_usageList : (ss : List Stmt) → (b : Bindings) →
    (declaredVars (Stmt.usageList r b ss).trace).map (·.1) = Stmt.bindersList ss
  | [], _ => rfl
  | s :: ss, b => by
    rw [Stmt.usageList, Traced.trace_bind, declaredVars_append, List.map_append,
      s.declaredVars_usage, Stmt.declaredVars_usageList ss, Stmt.bindersList]

/-- A block declares the binders of its statements. -/
theorem Block.declaredVars_usage : (body : Block) → (b : Bindings) →
    (declaredVars (body.usage r b).trace).map (·.1) = body.binders
  | ⟨_, stmts⟩, b => by
    rw [Block.usage, Traced.trace_bind, Traced.trace_pure, List.append_nil,
      Stmt.declaredVars_usageList stmts, Block.binders]

/-- An optional block declares the binders of the block. -/
theorem Block.declaredVars_usage? : (body : Option Block) → (b : Bindings) →
    (declaredVars (Block.usage? r b body).trace).map (·.1) = Block.binders? body
  | none, _ => rfl
  | some body, b => body.declaredVars_usage b

/-- Cases declare the binders of their bodies in the order of the text. -/
theorem SwitchCase.declaredVars_usageList : (cases : List SwitchCase) → (b : Bindings) →
    (declaredVars (SwitchCase.usageList r b cases).trace).map (·.1) = SwitchCase.bindersList cases
  | [], _ => rfl
  | ⟨_, value, body, _⟩ :: cases, b => by
    rw [SwitchCase.usageList, declaredNames_bind (Expr.usage?_inScope r b _ value),
      Traced.trace_bind, declaredVars_append, List.map_append, Stmt.declaredVars_usageList body,
      SwitchCase.declaredVars_usageList cases, SwitchCase.bindersList]

end

end

/-! ## Walks over statements -/

/-- The event without the name of a declared variable. -/
def UsageEvent.unnamed : UsageEvent → UsageEvent
  | .declare _ ty isParam => .declare "" ty isParam
  | event => event

/-- The events are the same but for the names of declared variables. -/
def SameUses (events events' : List UsageEvent) : Prop :=
  events'.map UsageEvent.unnamed = events.map UsageEvent.unnamed

namespace SameUses

/-- Events use what they use. -/
theorem refl (events : List UsageEvent) : SameUses events events :=
  rfl

/-- Uses are compared part by part. -/
theorem append {a a' b b' : List UsageEvent} (ha : SameUses a a') (hb : SameUses b b') :
    SameUses (a ++ b) (a' ++ b') := by
  rw [SameUses, List.map_append, List.map_append, ha, hb]

/-- What the events declare, names apart. -/
theorem declaredVars {a a' : List UsageEvent} (h : SameUses a a') :
    (declaredVars a').map (·.2) = (declaredVars a).map (·.2) := by
  have hunnamed : ∀ events : List UsageEvent,
      (Oxidize.declaredVars (events.map UsageEvent.unnamed)).map (·.2) =
        (Oxidize.declaredVars events).map (·.2) := by
    intro events
    induction events with
    | nil => rfl
    | cons event events ih =>
      cases event <;> simp [UsageEvent.unnamed, Oxidize.declaredVars, ih]
  rw [← hunnamed a', h, hunnamed]

end SameUses

namespace Bindings.Renamed

variable {old new : String} {b b' : Bindings}

/-- Behind a declaration of the old name there is nothing to replace. -/
theorem declare (h : b.Renamed old new b') {name : String} (hname : name ≠ new) :
    (b.declare name).Renamed (if old = name then new else old) new (b'.declare name) where
  next := by simpa [Bindings.next] using h.next
  lookup other hother := by
    rw [lookup?_declare, lookup?_declare, h.next]
    split
    next hold =>
      rw [renamed, if_neg hother]
      split
      next => rfl
      next hne => exact h.lookup_of_ne hother fun heq => hne (heq.trans hold)
    next hold =>
      rw [h.lookup other hother]
      by_cases hreplaced : other = old
      · rw [renamed, if_pos hreplaced, if_neg (Ne.symm hname),
          if_neg fun heq => hold (hreplaced.symm.trans heq)]
      · rw [renamed, if_neg hreplaced]
  visible hne := by
    split at hne
    next => exact absurd rfl hne
    next hold =>
      rw [if_neg hold, lookup?_declare, if_neg hold]
      exact h.visible hne

/-- The declaration that is renamed itself. -/
theorem declare_new (h : b.Renamed new new b') (name : String) :
    (b.declare name).Renamed name new (b'.declare new) where
  next := by simpa [Bindings.next] using h.next
  lookup other hother := by
    rw [lookup?_declare, lookup?_declare, h.next, renamed]
    split
    next => rw [if_pos rfl]
    next => exact h.lookup_of_ne hother hother
  visible _ := by simp [lookup?_declare]

/-- Bindings with the scopes of related ones, once they have numbered as many variables. -/
theorem of_scope (h : b.Renamed old new b') {c c' : Bindings} (hc : c.scope = b.scope)
    (hc' : c'.scope = b'.scope) (hnext : c'.next = c.next) : c.Renamed old new c' where
  next := hnext
  lookup name hname := by
    rw [lookup?, lookup?, hc, hc']
    exact h.lookup name hname
  visible hne := by
    rw [lookup?, hc]
    exact h.visible hne

end Bindings.Renamed

/-- Two walks that do the same to variables and come to related bindings. -/
structure WalksAlike (old new : String) (out out' : Walking) : Prop where
  trace : SameUses out.trace out'.trace
  value : out.value.Renamed old new out'.value

namespace WalksAlike

variable {old new : String} {b b' : Bindings} {out out' : Walking}

/-- Nothing is walked over, and the bindings stay renamed. -/
theorem pure (h : b.Renamed old new b') : WalksAlike old new (pure b) (pure b') :=
  ⟨.refl _, h⟩

/-- The same events in front keep two walks alike. -/
theorem tell {events events' : List UsageEvent} (hevents : events' = events)
    (h : WalksAlike old new out out') :
    WalksAlike old new (Traced.tellAll events >>= fun _ => out)
      (Traced.tellAll events' >>= fun _ => out') where
  trace := by
    rw [hevents]
    exact (SameUses.refl events).append h.trace
  value := h.value

/-- Walks that are alike go on with walks that are alike. -/
theorem bind {old' : String} {f g : Bindings → Walking} (h : WalksAlike old new out out')
    (hf : WalksAlike old' new (f out.value) (g out'.value)) :
    WalksAlike old' new (out >>= f) (out' >>= g) :=
  ⟨h.trace.append hf.trace, hf.value⟩

/-- Declaring a variable on both sides. If it has the old name, the renaming ends behind it. -/
theorem declare (h : b.Renamed old new b') {name : String} (hname : name ≠ new) (ty : Ty)
    (isParam : Bool) :
    WalksAlike (if old = name then new else old) new (b.walkDeclare name ty isParam)
      (b'.walkDeclare name ty isParam) :=
  ⟨.refl _, h.declare hname⟩

/-- Declaring the renamed variable itself, under the new name on the other side. -/
theorem declare_new (h : b.Renamed new new b') (name : String) (ty : Ty) (isParam : Bool) :
    WalksAlike name new (b.walkDeclare name ty isParam) (b'.walkDeclare new ty isParam) :=
  ⟨rfl, h.declare_new name⟩

/-- Closing the frames that walks were given restores what they started from. -/
theorem framed (h : b.Renamed old new b') (hout : Walks b.push out) (hout' : Walks b'.push out')
    (htrace : SameUses out.trace out'.trace) :
    WalksAlike old new (out >>= fun b => Pure.pure b.pop) (out' >>= fun b => Pure.pure b.pop) where
  trace := htrace.append (.refl _)
  value := by
    have hlength := congrArg List.length htrace.declaredVars
    refine h.of_scope hout.scope_pop hout'.scope_pop ?_
    change out'.value.declared.length = out.value.declared.length
    have hnext : b'.declared.length = b.declared.length := h.next
    rw [List.length_map, List.length_map] at hlength
    rw [hout'.declared, hout.declared, List.length_append, List.length_append, List.length_map,
      List.length_map, hlength, Bindings.declared_push, Bindings.declared_push, hnext]

/-- Loops over items of one type, whatever their variables are called. -/
theorem loop (r : Option Registry) (h : b.Renamed old new b') {var var' : String} {ty : Ty}
    {body body' : Block}
    (hbody : SameUses (body.usage r (b.push.declare var)).trace
      (body'.usage r (b'.push.declare var')).trace) :
    WalksAlike old new
      (b.push.walkDeclare var ty false >>= fun b => body.usage r b >>= fun b => Pure.pure b.pop)
      (b'.push.walkDeclare var' ty false >>= fun b =>
        body'.usage r b >>= fun b => Pure.pure b.pop) := by
  have hwalks : ∀ (b : Bindings) (var : String) (body : Block),
      Walks b.push (b.push.walkDeclare var ty false >>= fun b => body.usage r b) :=
    fun b var body => (Walks.declare b.push var ty false).bind (body.usage_walks r _)
  have hdeclare : SameUses (b.push.walkDeclare var ty false).trace
      (b'.push.walkDeclare var' ty false).trace := rfl
  have hframed := framed h (hwalks b var body) (hwalks b' var' body') (hdeclare.append hbody)
  rwa [Traced.bind_assoc, Traced.bind_assoc] at hframed

/-- Cases with alike bodies and alike cases behind them. -/
theorem case (r : Option Registry) (h : b.Renamed old new b') {c c' : SwitchCase}
    {cases cases' : List SwitchCase}
    (hvalue : Expr.usage? r b' .borrow c'.value = Expr.usage? r b .borrow c.value)
    (hbody : SameUses (Stmt.usageList r b.push c.body).trace
      (Stmt.usageList r b'.push c'.body).trace)
    (hcases : ∀ b b' : Bindings, b.Renamed old new b' →
      WalksAlike old new (SwitchCase.usageList r b cases) (SwitchCase.usageList r b' cases')) :
    WalksAlike old new (SwitchCase.usageList r b (c :: cases))
      (SwitchCase.usageList r b' (c' :: cases')) := by
  have hframed := framed h (Stmt.usageList_walks r _ _) (Stmt.usageList_walks r _ _) hbody
  have hrest := hframed.bind (f := fun b => SwitchCase.usageList r b cases)
    (g := fun b => SwitchCase.usageList r b cases') (hcases _ _ hframed.value)
  obtain ⟨_, value, body, _⟩ := c
  obtain ⟨_, value', body', _⟩ := c'
  rw [SwitchCase.usageList, SwitchCase.usageList]
  refine .tell hvalue ?_
  simpa only [Traced.bind_assoc, Traced.pure_bind] using hrest

end WalksAlike

section
variable {new : String} (r : Option Registry)

mutual

/-- A statement does the same to variables, whatever the variable declared outside of it is
called. -/
theorem Stmt.usage_rename : (s : Stmt) → {old : String} → {b b' : Bindings} →
    b.Renamed old new b' → Avoids new s.nodes → new ∉ s.binders →
      WalksAlike (if old ∈ s.declares then new else old) new (s.usage r b)
        ((s.rename old new).usage r b')
  | .letVar _ name ty _ init, old, b, b', h, he, hs => by
    have hty : (init.map (·.rename old new)).bind (·.ty) = init.bind (·.ty) := by
      cases init <;> simp
    have hname : name ≠ new := fun heq => hs (heq ▸ .head _)
    rw [Stmt.usage, Stmt.rename, Stmt.usage, hty]
    rw [Stmt.declares]
    simp only [List.mem_singleton]
    exact .tell (Expr.usage?_rename r h .value init he) (.declare h hname _ _)
  | .assign _ target value, _, b, b', h, he, _ => by
    rw [Stmt.nodes, avoids_append] at he
    rw [Stmt.usage, Stmt.rename, Stmt.usage]
    exact .tell (Expr.placeUsage_rename r h he.1)
      (.tell (value.usage_rename r h _ he.2) (.pure h))
  | .ret _ value, _, b, b', h, he, _ => by
    rw [Stmt.usage, Stmt.rename, Stmt.usage]
    exact .tell (Expr.usage?_rename r h .value value he) (.pure h)
  | .ifElse _ cond thenBlock elseBlock, _, b, b', h, he, hs => by
    rw [Stmt.nodes, avoids_append, avoids_append] at he
    rw [Stmt.binders, List.mem_append, not_or] at hs
    have hthen := thenBlock.usage_rename h he.2.1 hs.1
    rw [Stmt.usage, Stmt.rename, Stmt.usage]
    exact .tell (cond.usage_rename r h _ he.1)
      (hthen.bind (Block.usage?_rename elseBlock hthen.value he.2.2 hs.2))
  | .whileLoop _ cond body, _, b, b', h, he, hs => by
    rw [Stmt.nodes, avoids_append] at he
    rw [Stmt.usage, Stmt.rename, Stmt.usage]
    exact .tell (cond.usage_rename r h _ he.1) (body.usage_rename h he.2 hs)
  | .forEach _ var iterable body, old, b, b', h, he, hs => by
    rw [Stmt.nodes, avoids_append] at he
    rw [Stmt.binders, List.mem_cons, not_or] at hs
    have hbody := body.usage_rename (h.push.declare (Ne.symm hs.1)) he.2 hs.2
    rw [Stmt.usage, Stmt.rename, Stmt.usage, Expr.tyOrVoid_rename]
    refine .tell (iterable.usage_rename r h _ he.1) (.loop r h ?_)
    split
    next hold => simpa only [if_pos hold, Block.rename_self] using hbody.trace
    next hold => simpa only [if_neg hold] using hbody.trace
  | .switch _ scrutinee cases, _, b, b', h, he, hs => by
    rw [Stmt.nodes, avoids_append] at he
    rw [Stmt.usage, Stmt.rename, Stmt.usage]
    exact .tell (scrutinee.usage_rename r h _ he.1) (SwitchCase.usageList_rename cases h he.2 hs)
  | .breakLoop _, _, _, _, h, _, _ | .continueLoop _, _, _, _, h, _, _ => .pure h
  | .expr e, _, b, b', h, he, _ => by
    rw [Stmt.usage, Stmt.rename, Stmt.usage]
    exact .tell (e.usage_rename r h _ he) (.pure h)
  | .block body, _, b, b', h, he, hs => body.usage_rename h he hs

/-- Statements and renamed statements use the same variables. -/
theorem Stmt.usageList_rename : (ss : List Stmt) → {old : String} → {b b' : Bindings} →
    b.Renamed old new b' → Avoids new (Stmt.nodesList ss) → new ∉ Stmt.bindersList ss →
      SameUses (Stmt.usageList r b ss).trace
        (Stmt.usageList r b' (Stmt.renameList old new ss)).trace
  | [], _, _, _, _, _, _ => .refl _
  | s :: ss, old, b, b', h, he, hs => by
    rw [Stmt.nodesList, avoids_append] at he
    rw [Stmt.bindersList, List.mem_append, not_or] at hs
    have hhead := s.usage_rename h he.1 hs.1
    have htail := Stmt.usageList_rename ss hhead.value he.2 hs.2
    rw [Stmt.renameList, Stmt.usageList, Stmt.usageList]
    refine hhead.trace.append ?_
    split
    next hold => rwa [if_pos hold, Stmt.renameList_self] at htail
    next hold => rwa [if_neg hold] at htail

/-- A block and its renaming are walked alike. -/
theorem Block.usage_rename : (body : Block) → {old : String} → {b b' : Bindings} →
    b.Renamed old new b' → Avoids new body.nodes → new ∉ body.binders →
      WalksAlike old new (body.usage r b) ((body.rename old new).usage r b')
  | ⟨_, stmts⟩, _, b, b', h, he, hs => by
    rw [Block.usage, Block.rename, Block.usage]
    exact .framed h (Stmt.usageList_walks r _ _) (Stmt.usageList_walks r _ _)
      (Stmt.usageList_rename stmts h.push he hs)

/-- An optional block and its renaming are walked alike. -/
theorem Block.usage?_rename : (body : Option Block) → {old : String} → {b b' : Bindings} →
    b.Renamed old new b' → Avoids new (Block.nodes? body) → new ∉ Block.binders? body →
      WalksAlike old new (Block.usage? r b body) (Block.usage? r b' (Block.rename? old new body))
  | none, _, _, _, h, _, _ => .pure h
  | some body, _, _, _, h, he, hs => body.usage_rename h he hs

/-- The cases of a switch and their renaming are walked alike. -/
theorem SwitchCase.usageList_rename : (cases : List SwitchCase) → {old : String} →
    {b b' : Bindings} → b.Renamed old new b' → Avoids new (SwitchCase.nodesList cases) →
      new ∉ SwitchCase.bindersList cases →
        WalksAlike old new (SwitchCase.usageList r b cases)
          (SwitchCase.usageList r b' (SwitchCase.renameList old new cases))
  | [], _, _, _, h, _, _ => .pure h
  | ⟨_, value, body, _⟩ :: cases, _, b, b', h, he, hs => by
    rw [SwitchCase.nodesList, avoids_append, avoids_append] at he
    rw [SwitchCase.bindersList, List.mem_append, not_or] at hs
    rw [SwitchCase.renameList]
    exact .case r h (Expr.usage?_rename r h .borrow value he.1)
      (Stmt.usageList_rename body h.push he.2.1 hs.1)
      fun _ _ h => SwitchCase.usageList_rename cases h he.2.2 hs.2

end

end

/-! ## Walks over a renamed declaration -/

section
variable {new : String} (r : Option Registry)

/-- An expression that does not mention the new name has the same events in renamed bindings. -/
theorem Expr.usage_renamed {b b' : Bindings} (h : b.Renamed new new b') {e : Expr}
    (he : Avoids new e.nodes) (pos : ReadPosition) : e.usage r b' pos = e.usage r b pos := by
  simpa only [Expr.rename_self] using e.usage_rename r h pos he

/-- So has an optional expression. -/
theorem Expr.usage?_renamed {b b' : Bindings} (h : b.Renamed new new b') {e : Option Expr}
    (he : Avoids new (Expr.nodes? e)) (pos : ReadPosition) :
    Expr.usage? r b' pos e = Expr.usage? r b pos e := by
  simpa only [Expr.map_rename_self] using Expr.usage?_rename r h pos e he

/-- A statement that neither mentions nor declares the new name is walked alike in renamed
bindings. -/
theorem Stmt.usage_renamed {b b' : Bindings} (h : b.Renamed new new b') {s : Stmt}
    (he : Avoids new s.nodes) (hs : new ∉ s.binders) :
    WalksAlike new new (s.usage r b) (s.usage r b') := by
  simpa only [Stmt.rename_self, ite_self] using s.usage_rename r h he hs

/-- So is a block. -/
theorem Block.usage_renamed {b b' : Bindings} (h : b.Renamed new new b') {body : Block}
    (he : Avoids new body.nodes) (hs : new ∉ body.binders) :
    WalksAlike new new (body.usage r b) (body.usage r b') := by
  simpa only [Block.rename_self] using body.usage_rename r h he hs

mutual

/-- A statement does the same to variables, whatever one that it declares is called. -/
theorem Stmt.usage_renameBinder : (s : Stmt) → {k : Nat} → k < s.binders.length →
    {b b' : Bindings} → b.Renamed new new b' → Avoids new s.nodes → new ∉ s.binders →
      WalksAlike (s.declares.headD new) new (s.usage r b) ((s.renameBinder new k).usage r b')
  | .letVar _ name ty _ init, k, hk, b, b', h, he, hs => by
    have hzero : k = 0 := Nat.lt_one_iff.1 hk
    rw [Stmt.usage, Stmt.renameBinder, if_pos hzero, Stmt.usage]
    exact .tell (Expr.usage?_renamed r h he .value) (.declare_new h name _ _)
  | .ifElse _ cond thenBlock elseBlock, k, _, b, b', h, he, hs => by
    rw [Stmt.nodes, avoids_append, avoids_append] at he
    rw [Stmt.binders, List.mem_append, not_or] at hs
    rw [Stmt.usage, Stmt.renameBinder]
    split
    · have hthen := thenBlock.usage_renameBinder k h he.2.1 hs.1
      have helse := Block.usage?_rename r elseBlock hthen.value he.2.2 hs.2
      rw [Block.rename?_self] at helse
      rw [Stmt.usage]
      exact .tell (Expr.usage_renamed r h he.1 _) (hthen.bind helse)
    · have hthen := Block.usage_renamed r h he.2.1 hs.1
      rw [Stmt.usage]
      exact .tell (Expr.usage_renamed r h he.1 _)
        (hthen.bind (Block.usage?_renameBinder elseBlock _ hthen.value he.2.2 hs.2))
  | .whileLoop _ cond body, k, _, b, b', h, he, hs => by
    rw [Stmt.nodes, avoids_append] at he
    rw [Stmt.usage, Stmt.renameBinder, Stmt.usage]
    exact .tell (Expr.usage_renamed r h he.1 _) (body.usage_renameBinder k h he.2 hs)
  | .forEach _ var iterable body, k, _, b, b', h, he, hs => by
    rw [Stmt.nodes, avoids_append] at he
    rw [Stmt.binders, List.mem_cons, not_or] at hs
    rw [Stmt.usage, Stmt.renameBinder]
    split
    · rw [Stmt.usage]
      exact .tell (Expr.usage_renamed r h he.1 _)
        (.loop r h (body.usage_rename r (h.push.declare_new var) he.2 hs.2).trace)
    · have hvar := h.push.declare (Ne.symm hs.1)
      rw [ite_self] at hvar
      rw [Stmt.usage]
      exact .tell (Expr.usage_renamed r h he.1 _)
        (.loop r h (body.usage_renameBinder _ hvar he.2 hs.2).trace)
  | .switch _ scrutinee cases, k, _, b, b', h, he, hs => by
    rw [Stmt.nodes, avoids_append] at he
    rw [Stmt.usage, Stmt.renameBinder, Stmt.usage]
    exact .tell (Expr.usage_renamed r h he.1 _)
      (SwitchCase.usageList_renameBinder cases k h he.2 hs)
  | .block body, k, _, b, b', h, he, hs => body.usage_renameBinder k h he hs
  | .assign _ _ _, _, hk, _, _, _, _, _ | .ret _ _, _, hk, _, _, _, _, _
  | .breakLoop _, _, hk, _, _, _, _, _ | .continueLoop _, _, hk, _, _, _, _, _
  | .expr _, _, hk, _, _, _, _, _ => absurd hk (Nat.not_lt_zero _)

/-- Renaming one binder among statements keeps their uses. -/
theorem Stmt.usageList_renameBinder : (ss : List Stmt) → (k : Nat) → {b b' : Bindings} →
    b.Renamed new new b' → Avoids new (Stmt.nodesList ss) → new ∉ Stmt.bindersList ss →
      SameUses (Stmt.usageList r b ss).trace
        (Stmt.usageList r b' (Stmt.renameBinderList new k ss)).trace
  | [], _, _, _, _, _, _ => .refl _
  | s :: ss, k, b, b', h, he, hs => by
    rw [Stmt.nodesList, avoids_append] at he
    rw [Stmt.bindersList, List.mem_append, not_or] at hs
    rw [Stmt.renameBinderList, Stmt.usageList]
    split
    next hk =>
      have hhead := s.usage_renameBinder hk h he.1 hs.1
      have htail := Stmt.usageList_rename r ss hhead.value he.2 hs.2
      rw [Stmt.usageList]
      refine hhead.trace.append ?_
      cases hdeclares : s.declares with
      | nil => rwa [hdeclares, List.headD_nil, Stmt.renameList_self] at htail
      | cons name _ => rwa [hdeclares, List.headD_cons] at htail
    next =>
      have hhead := Stmt.usage_renamed r h he.1 hs.1
      rw [Stmt.usageList]
      exact hhead.trace.append (Stmt.usageList_renameBinder ss _ hhead.value he.2 hs.2)

/-- Renaming one binder of a block keeps the walk alike. -/
theorem Block.usage_renameBinder : (body : Block) → (k : Nat) → {b b' : Bindings} →
    b.Renamed new new b' → Avoids new body.nodes → new ∉ body.binders →
      WalksAlike new new (body.usage r b) ((body.renameBinder new k).usage r b')
  | ⟨_, stmts⟩, k, _, _, h, he, hs => by
    rw [Block.usage, Block.renameBinder, Block.usage]
    exact .framed h (Stmt.usageList_walks r _ _) (Stmt.usageList_walks r _ _)
      (Stmt.usageList_renameBinder stmts k h.push he hs)

/-- Renaming one binder of an optional block keeps the walk alike. -/
theorem Block.usage?_renameBinder : (body : Option Block) → (k : Nat) → {b b' : Bindings} →
    b.Renamed new new b' → Avoids new (Block.nodes? body) → new ∉ Block.binders? body →
      WalksAlike new new (Block.usage? r b body) (Block.usage? r b' (Block.renameBinder? new k body))
  | none, _, _, _, h, _, _ => .pure h
  | some body, k, _, _, h, he, hs => body.usage_renameBinder k h he hs

/-- Renaming one binder among the cases of a switch keeps the walk alike. -/
theorem SwitchCase.usageList_renameBinder : (cases : List SwitchCase) → (k : Nat) →
    {b b' : Bindings} → b.Renamed new new b' → Avoids new (SwitchCase.nodesList cases) →
      new ∉ SwitchCase.bindersList cases →
        WalksAlike new new (SwitchCase.usageList r b cases)
          (SwitchCase.usageList r b' (SwitchCase.renameBinderList new k cases))
  | [], _, _, _, h, _, _ => .pure h
  | ⟨_, value, body, _⟩ :: cases, k, b, b', h, he, hs => by
    rw [SwitchCase.nodesList, avoids_append, avoids_append] at he
    rw [SwitchCase.bindersList, List.mem_append, not_or] at hs
    have hvalue := Expr.usage?_renamed r h he.1 .borrow
    rw [SwitchCase.renameBinderList]
    split
    · refine .case r h hvalue (Stmt.usageList_renameBinder body k h.push he.2.1 hs.1) fun _ _ h => ?_
      simpa only [SwitchCase.renameList_self] using
        SwitchCase.usageList_rename r cases h he.2.2 hs.2
    · refine .case r h hvalue ?_ fun _ _ h =>
        SwitchCase.usageList_renameBinder cases _ h he.2.2 hs.2
      simpa only [Stmt.renameList_self] using Stmt.usageList_rename r body h.push he.2.1 hs.1

end

end

/-! ## The report -/

namespace SameUses

variable {events events' : List UsageEvent} (h : SameUses events events')
include h

/-- Counts of events that do not look at names agree. -/
theorem countP {p : UsageEvent → Bool} (hp : ∀ event, p event.unnamed = p event) :
    events'.countP p = events.countP p := by
  have hcount : ∀ l : List UsageEvent, (l.map UsageEvent.unnamed).countP p = l.countP p := by
    intro l
    rw [List.countP_map]
    exact List.countP_congr fun event _ => by rw [Function.comp_apply, hp]
  rw [← hcount, h, hcount]

/-- So the usage of a variable is the same, apart from its name. -/
theorem ofEvents (name : String) (ty : Ty) (isParam : Bool) (id : BindingId) :
    VarUsage.ofEvents events' name ty isParam id = .ofEvents events name ty isParam id := by
  have hany : ∀ l : List UsageEvent,
      l.any (·.isMutationOf id) = decide (0 < l.countP (·.isMutationOf id)) := by
    intro l
    rw [Bool.eq_iff_iff, List.any_eq_true, decide_eq_true_iff, List.countP_pos_iff]
  simp only [VarUsage.ofEvents, hany]
  rw [h.countP fun event => by cases event <;> rfl, h.countP fun event => by cases event <;> rfl,
    h.countP fun event => by cases event <;> rfl, h.countP fun event => by cases event <;> rfl]

end SameUses

/-- A list of pairs whose first components change at one place changes at that place. -/
theorem eq_modify_of_map {α β : Type} {l l' : List (α × β)} {k : Nat} {a : α}
    (hfst : l'.map (·.1) = (l.map (·.1)).set k a) (hsnd : l'.map (·.2) = l.map (·.2)) :
    l' = l.modify k fun v => (a, v.2) := by
  refine List.ext_getElem? fun j => ?_
  have hj := congrArg (·[j]?) hfst
  have hj' := congrArg (·[j]?) hsnd
  simp only [List.getElem?_map, List.getElem?_set, List.length_map] at hj hj'
  rw [List.getElem?_modify]
  cases hl : l[j]? with
  | none => simpa [hl] using hj'
  | some v =>
    obtain ⟨v', hv', hsame⟩ := Option.map_eq_some_iff.1 (hj'.trans (by rw [hl]; rfl))
    have hlt := (List.getElem?_eq_some_iff.1 hl).1
    rw [hv', hl] at hj
    rw [hv']
    grind

/-- Uses of which one has another name are sorted as before. -/
theorem UsageReport.ofBindings_modify (copy : CopySet) (bindings : List VarUsage) (id : BindingId)
    (name : String) :
    ofBindings copy (bindings.modify id fun u => { u with name := name }) =
      { ofBindings copy bindings with
        bindings := bindings.modify id fun u => { u with name := name } } := by
  have hids : ∀ p : VarUsage → Bool, (∀ u : VarUsage, p { u with name := name } = p u) →
      idsWith p (bindings.modify id fun u => { u with name := name }) = idsWith p bindings := by
    intro p hp
    have hmap : ∀ l : List VarUsage,
        idsWith p l = ((l.map p).zipIdx.filter (·.1)).map (·.2) := by
      intro l
      rw [idsWith, List.zipIdx_map, List.filter_map, List.map_map]
      rfl
    have hsame : (bindings.modify id fun u => { u with name := name }).map p = bindings.map p := by
      refine List.ext_getElem? fun j => ?_
      rw [List.getElem?_map, List.getElem?_map, List.getElem?_modify]
      cases bindings[j]? with
      | none => rfl
      | some u => simp only [Option.map_some]; split <;> simp [hp]
    rw [hmap, hsame, hmap]
  rw [ofBindings, hids (·.needsDuplication copy) fun _ => rfl, hids (·.canBorrow copy) fun _ => rfl]
  rfl

namespace Bindings.Renamed

variable {old new : String} {b b' : Bindings}

/-- Behind several declarations there is nothing to replace once the old name is among them. -/
theorem declareAll {names : List String} (h : b.Renamed old new b') (hnames : new ∉ names) :
    (names.foldl Bindings.declare b).Renamed (if old ∈ names then new else old) new
      (names.foldl Bindings.declare b') := by
  induction names generalizing old b b' with
  | nil => simpa using h
  | cons name names ih =>
    rw [List.mem_cons, not_or] at hnames
    have hrest := ih (h.declare (Ne.symm hnames.1)) hnames.2
    by_cases hold : old = name
    · simpa [hold, hnames.2] using hrest
    · simpa [hold] using hrest

/-- Several declarations of which one is renamed. -/
theorem declareAll_set {names : List String} {i : Nat} {name : String}
    (h : b.Renamed new new b') (hnames : new ∉ names) (hi : names[i]? = some name) :
    (names.foldl Bindings.declare b).Renamed (if name ∈ names.drop (i + 1) then new else name) new
      ((names.set i new).foldl Bindings.declare b') := by
  induction names generalizing i b b' with
  | nil => cases hi
  | cons first names ih =>
    rw [List.mem_cons, not_or] at hnames
    cases i with
    | zero =>
      cases hi
      exact (h.declare_new name).declareAll hnames.2
    | succ i =>
      have hfirst := h.declare (Ne.symm hnames.1)
      rw [ite_self] at hfirst
      exact ih hfirst hnames.2 hi

end Bindings.Renamed

namespace FunctionDecl

/-- The names of the variables of a function, in the order of the text. -/
def varNames (f : FunctionDecl) : List String :=
  f.signatureVars.map (·.1) ++ f.body.binders

/-- The function with a parameter renamed or, counted on behind the parameters, a variable that the
body declares. A later parameter of the same name hides the one that is renamed. -/
def renameVariable (i : Nat) (new : String) (f : FunctionDecl) : FunctionDecl :=
  match f.params[i]? with
  | some p =>
    { f with
      params := f.params.set i { p with name := new }
      body := if p.name ∈ (f.params.drop (i + 1)).map (·.name) then f.body
        else f.body.rename p.name new }
  | none => { f with body := f.body.renameBinder new (i - f.params.length) }

/-- The name is neither that of a variable of the function nor an expression in it. -/
def Lacks (f : FunctionDecl) (name : String) : Prop :=
  name ∉ f.varNames ∧ Avoids name f.nodes

instance (f : FunctionDecl) (name : String) : Decidable (f.Lacks name) :=
  inferInstanceAs (Decidable (_ ∧ _))

/-- The walk declares the variables of a function in the order of the text. -/
theorem names_usageEvents (r : Option Registry) (f : FunctionDecl) :
    (declaredVars (f.usageEvents r)).map (·.1) = f.varNames := by
  obtain ⟨_, _, _, _, ⟨_, stmts⟩, _, _⟩ := f
  rw [declaredVars_usageEvents, List.map_append, Stmt.declaredVars_usageList, List.map_map]
  rfl

section
variable {f : FunctionDecl} {i : Nat} {p : Param} {new : String}

/-- Renaming a parameter changes one entry of the signature. -/
theorem signatureVars_renameVariable (hp : f.params[i]? = some p) :
    (f.renameVariable i new).signatureVars =
      f.signatureVars.set (f.receiverCount + i) (new, p.ty) := by
  simp only [renameVariable, hp, signatureVars]
  rw [← length_receiverVars, List.set_append_right _ _ (Nat.le_add_right _ _),
    Nat.add_sub_cancel_left, List.map_set]

/-- A parameter renamed. -/
theorem signature_renamed (h : f.Lacks new) (hp : f.params[i]? = some p) :
    f.signatureBindings.Renamed
      (if p.name ∈ (f.params.drop (i + 1)).map (·.name) then new else p.name) new
      (f.renameVariable i new).signatureBindings := by
  have hnew : new ∉ f.signatureVars.map (·.1) := fun hmem => h.1 (List.mem_append_left _ hmem)
  have hset := (Bindings.Renamed.refl new .empty).declareAll_set hnew (signatureNames_getElem? hp)
  rw [Nat.add_assoc, drop_signatureNames] at hset
  rw [signatureBindings_eq, signatureBindings_eq, signatureVars_renameVariable hp, List.map_set]
  exact hset

/-- The signature declares the same variables, apart from the name. -/
theorem signature_sameUses (h : f.params[i]? = some p) (new : String) :
    SameUses (f.signatureVars.map fun v => .declare v.1 v.2 true)
      ((f.renameVariable i new).signatureVars.map fun v => .declare v.1 v.2 true) := by
  have hty : f.signatureVars[f.receiverCount + i]?.map (·.2) = some p.ty := by
    rw [signatureVars_getElem?, h]
    rfl
  rw [signatureVars_renameVariable h, SameUses, List.map_map, List.map_map]
  refine List.ext_getElem? fun id => ?_
  rw [List.getElem?_map, List.getElem?_map, List.getElem?_set]
  split
  next hid =>
    subst hid
    split
    next hlt =>
      rw [List.getElem?_eq_getElem hlt] at hty ⊢
      rw [Option.map_some, Option.some.injEq] at hty
      simp [UsageEvent.unnamed, hty]
    next hge => rw [List.getElem?_eq_none (Nat.le_of_not_lt hge)]
  next => rfl

/-- The body is renamed, unless a later parameter of the same name hides the renamed one. -/
theorem body_renameVariable (h : f.params[i]? = some p) (new : String) :
    (f.renameVariable i new).body = f.body.rename
      (if p.name ∈ (f.params.drop (i + 1)).map (·.name) then new else p.name) new := by
  simp only [renameVariable, h]
  split
  · rw [Block.rename_self]
  · rfl

/-- A function does the same to its variables, whatever they are called. -/
theorem usageEvents_renameVariable (r : Option Registry) (h : f.Lacks new) (i : Nat) :
    SameUses (f.usageEvents r) ((f.renameVariable i new).usageEvents r) := by
  have hbinders : new ∉ f.body.binders := fun hmem => h.1 (List.mem_append_right _ hmem)
  rw [usageEvents, usageEvents]
  cases hp : f.params[i]? with
  | some p =>
    refine (signature_sameUses hp new).append ?_
    rw [body_renameVariable hp, Block.stmts_rename]
    exact Stmt.usageList_rename r _ (signature_renamed h hp) h.2 (f.body.binders_eq ▸ hbinders)
  | none =>
    have hsig : (f.renameVariable i new).signatureVars = f.signatureVars := by
      simp only [renameVariable, hp, signatureVars]
    have hbody : (f.renameVariable i new).body = f.body.renameBinder new (i - f.params.length) := by
      simp only [renameVariable, hp]
    rw [signatureBindings, signatureBindings, hsig, hbody, Block.stmts_renameBinder]
    refine (SameUses.refl _).append ?_
    exact Stmt.usageList_renameBinder r _ _ (.refl new _) h.2 (f.body.binders_eq ▸ hbinders)

/-- Renaming a variable changes one entry among the names of variables. -/
theorem varNames_renameVariable (f : FunctionDecl) (i : Nat) (new : String) :
    (f.renameVariable i new).varNames = f.varNames.set (f.receiverCount + i) new := by
  have hlength : (f.signatureVars.map (·.1)).length = f.receiverCount + f.params.length := by
    rw [signatureVars, List.length_map, List.length_append, length_receiverVars, List.length_map]
  rw [varNames, varNames, List.set_append, hlength]
  cases hp : f.params[i]? with
  | some p =>
    have hi : i < f.params.length := (List.getElem?_eq_some_iff.1 hp).1
    rw [if_pos (Nat.add_lt_add_left hi _), signatureVars_renameVariable hp, List.map_set,
      body_renameVariable hp, Block.binders_rename]
  | none =>
    have hi : f.params.length ≤ i := List.getElem?_eq_none_iff.1 hp
    rw [if_neg (by omega), Nat.add_sub_add_left, ← Block.binders_renameBinder]
    simp only [renameVariable, hp, signatureVars]

/-- Renaming a variable changes the name of one declared variable and nothing else. -/
theorem declaredVars_renameVariable (r : Option Registry) (h : f.Lacks new) (i : Nat) :
    declaredVars ((f.renameVariable i new).usageEvents r) =
      (declaredVars (f.usageEvents r)).modify (f.receiverCount + i) fun v => (new, v.2) := by
  refine eq_modify_of_map ?_ (usageEvents_renameVariable r h i).declaredVars
  rw [names_usageEvents, names_usageEvents, varNames_renameVariable]

end

/-- The entry of a variable in the report is computed from all events of the function. -/
theorem getElem?_bindings_usage (copy : CopySet) (f : FunctionDecl) (id : BindingId) :
    (f.usage copy).bindings[id]? = (declaredVars (f.usageEvents copy.registry))[id]?.map fun v =>
      .ofEvents (f.usageEvents copy.registry) v.1 v.2.1 v.2.2 id := by
  simp only [usage, UsageReport.ofBindings, List.getElem?_map, List.getElem?_zipIdx,
    Option.map_map, Nat.zero_add]
  rfl

/-- **The usage analysis respects scopes.** A parameter, a declared variable or the variable of a loop
may be renamed, with the occurrences that refer to it, to any name that is not in use: the report
stays the same but for this name. -/
theorem usage_renameVariable (copy : CopySet) (f : FunctionDecl) (i : Nat) {new : String}
    (h : f.Lacks new) :
    (f.renameVariable i new).usage copy =
      { f.usage copy with
        bindings := (f.usage copy).bindings.modify (f.receiverCount + i) fun u =>
          { u with name := new } } := by
  refine Eq.trans (congrArg (UsageReport.ofBindings copy) (List.ext_getElem? fun id => ?_))
    (UsageReport.ofBindings_modify copy _ _ new)
  refine (getElem?_bindings_usage copy (f.renameVariable i new) id).trans ?_
  rw [declaredVars_renameVariable copy.registry h i, List.getElem?_modify, List.getElem?_modify,
    getElem?_bindings_usage]
  simp only [(usageEvents_renameVariable copy.registry h i).ofEvents]
  cases (declaredVars (f.usageEvents copy.registry))[id]? with
  | none => rfl
  | some v =>
    simp only [Option.map_some, Option.map_eq_map]
    split <;> rfl

/-- A parameter with the name of a namespace, hidden in turn by the variable of a loop and by a
declaration that starts from it. -/
def hidesMath : FunctionDecl :=
  let items (name : String) : Expr := ⟨.zero, .ident name, some (.seq .f64)⟩
  let pushTo (name : String) : Stmt :=
    .expr (.ofKind (.methodCall (items name) "push" none [.ofKind (.literal .null)] none))
  ⟨.zero, "hidesMath", [⟨"Math", .seq .f64, false⟩, ⟨"xs", .seq .f64, false⟩], .seq .f64, .ofStmts [
    pushTo "Math",
    .letVar .zero "xs" none false (some (items "xs")),
    .forEach .zero "Math" (items "Math") (.ofStmts [pushTo "Math"]),
    .block (.ofStmts [
      .expr (items "xs"),
      .letVar .zero "Math" none false (some (items "Math")),
      pushTo "Math"]),
    .ret .zero (some (items "Math"))], true, none⟩

/-- Renaming a parameter that hides a namespace changes its name in the report only, though the
function has other variables of that name. -/
theorem hidesMath_renameVariable :
    hidesMath.Lacks "m" ∧
      (hidesMath.renameVariable 0 "m").nodes.filterMap Expr.ident? =
        ["m", "xs", "m", "Math", "xs", "m", "Math", "m"] ∧
      (hidesMath.renameVariable 0 "m").usage .empty =
        { hidesMath.usage .empty with
          bindings := (hidesMath.usage .empty).bindings.modify 0 fun u => { u with name := "m" } } ∧
      (hidesMath.usage .empty).bindings.map (fun u => (u.name, u.reads, u.mutated)) =
        [("Math", 4, true), ("xs", 1, false), ("xs", 1, false), ("Math", 1, true),
          ("Math", 1, true)] := by
  have h : hidesMath.Lacks "m" := by decide
  exact ⟨h, by decide +kernel, usage_renameVariable .empty hidesMath 0 h, by decide +kernel⟩

end FunctionDecl

end Oxidize
