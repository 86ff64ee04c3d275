import Oxidize.Emit.Program
import Oxidize.Proofs.Emit.Reads

/-!
# Emission follows the usage walk

Emitting a statement and walking over it in the usage analysis go through the same declarations and
the same reads, although they open frames at different places: a conditional that is the whole
alternative of another one gets no frame of its own, and neither does a case of a switch whose body
is empty. `Follows` relates an emission that starts where the bindings agree with those of a walk to
that walk. It has one rule for each way in which emissions are put together, and
`Stmt.emit_follows` goes through the statements with these rules.
-/

namespace Oxidize

open Emitting (rendering line append note declare indented framed captured)

section
variable {cx : FnContext} {P : Prop} {α β : Type}

/-- Two emissions in a row succeed if the first one does and then the second one. -/
theorem Emitting.exists_of_run_bind {x : Emitting α} {f : α → Emitting β} {st st'' : Emission} {c : β}
    (h : (x >>= f).run st = .ok c st'') :
    ∃ a st', x.run st = .ok a st' ∧ (f a).run st' = .ok c st'' := by
  rw [EStateM.run_bind] at h
  split at h
  · next a st' hx => exact ⟨a, st', hx, h⟩
  · cases h

/-- Captured lines are those of an emission that starts without any; the lines so far are put back. -/
theorem Emitting.exists_of_run_captured {x : Emitting Unit} {st st' : Emission} {lines : List String}
    (h : (captured x).run st = .ok lines st') :
    ∃ mid, x.run { st with lines := [] } = .ok () mid ∧ lines = mid.lines ∧
      st' = { mid with lines := st.lines } := by
  obtain ⟨_, st₁, h₁, h⟩ := Emitting.exists_of_run_bind h
  cases h₁
  obtain ⟨_, st₂, h₂, h⟩ := Emitting.exists_of_run_bind h
  cases h₂
  obtain ⟨_, mid, hx, h⟩ := Emitting.exists_of_run_bind h
  cases h
  exact ⟨mid, hx, rfl, rfl⟩

/-! ## What emission touches -/

/-- The emission changes neither the bindings nor the reads. -/
def Silent (x : Emitting α) : Prop :=
  ∀ st a st', x.run st = .ok a st' → st'.bindings = st.bindings ∧ st'.reads = st.reads

namespace Silent

/-- A result that is given is silent. -/
theorem pure (a : α) : Silent (Pure.pure a : Emitting α) := by
  rintro st a' st' ⟨⟩
  exact ⟨rfl, rfl⟩

/-- Two silent emissions in a row are silent. -/
theorem bind {x : Emitting α} {f : α → Emitting β} (hx : Silent x) (hf : ∀ a, Silent (f a)) :
    Silent (x >>= f) := by
  intro st c st'' h
  obtain ⟨a, st', h₁, h₂⟩ := Emitting.exists_of_run_bind h
  obtain ⟨hb, hr⟩ := hx st a st' h₁
  obtain ⟨hb', hr'⟩ := hf a st' c st'' h₂
  exact ⟨hb'.trans hb, hr'.trans hr⟩

/-- A change of the state that keeps bindings and reads is silent. -/
theorem modify {f : Emission → Emission} (hb : ∀ st, (f st).bindings = st.bindings)
    (hr : ∀ st, (f st).reads = st.reads) : Silent (modify f : Emitting PUnit) := by
  rintro st a' st' ⟨⟩
  exact ⟨hb st, hr st⟩

/-- Looking at the state is silent. -/
theorem get : Silent (get : Emitting Emission) := by
  rintro st a' st' ⟨⟩
  exact ⟨rfl, rfl⟩

/-- A line is silent. -/
theorem line (text : String) : Silent (line text) :=
  .modify (fun _ => rfl) fun _ => rfl

/-- Appending lines is silent. -/
theorem append (lines : List String) : Silent (append lines) :=
  .modify (fun _ => rfl) fun _ => rfl

/-- Recording a case that falls through is silent. -/
theorem noteFallthrough (pattern : String) : Silent (noteFallthrough pattern) :=
  .bind (.modify (fun _ => rfl) fun _ => rfl) fun _ => .modify (fun _ => rfl) fun _ => rfl

end Silent

/-- Where the bindings agree with `b`, the emission keeps them and writes the reads among the
events. -/
def Emitting.Reads (cx : FnContext) (P : Prop) (b : Bindings) (x : Emitting α)
    (events : List UsageEvent) : Prop :=
  ∀ st a st', x.run st = .ok a st' → st.bindings.Agree b → cx.Counts events →
    st'.bindings = st.bindings ∧ Appends cx P st.reads st'.reads events

/-- Where the bindings agree with `b`, the emission declares and reads what the walk does, and the
bindings agree with those of the walk again. -/
def Follows (cx : FnContext) (P : Prop) (b : Bindings) (x : Emitting α) (out : Walking) : Prop :=
  ∀ st a st', x.run st = .ok a st' → st.bindings.Agree b → cx.Counts out.trace →
    st'.bindings.scope.outer = st.bindings.scope.outer ∧ st'.bindings.Agree out.value ∧
      Appends cx P st.reads st'.reads out.trace

variable {b : Bindings} {r : Option Registry}

namespace Emitting.Reads

/-- A result that is given reads nothing. -/
theorem pure (a : α) {events : List UsageEvent} (h : readsIn events = []) :
    Emitting.Reads cx P b (Pure.pure a) events := by
  rintro st a' st' ⟨⟩ _ _
  exact ⟨rfl, .nothing fun _ => h⟩

/-- What is done with the text of an expression is silent. -/
theorem map {x : Emitting α} {f : α → Emitting β} {events : List UsageEvent}
    (hx : Emitting.Reads cx P b x events) (hf : ∀ a, Silent (f a)) :
    Emitting.Reads cx P b (x >>= f) events := by
  intro st c st'' h hag hcount
  obtain ⟨a, st', h₁, h₂⟩ := Emitting.exists_of_run_bind h
  obtain ⟨hb, happ⟩ := hx st a st' h₁ hag hcount
  obtain ⟨hb', hr'⟩ := hf a st' c st'' h₂
  exact ⟨hb'.trans hb, hr' ▸ happ⟩

/-- An expression rendered under the current bindings. -/
theorem rendering {x : Bindings → Rendering α} {events : List UsageEvent}
    (hx : ∀ b', b'.Agree b → Rendering.Reads cx P (x b') events) :
    Emitting.Reads cx P b (do Emitting.rendering (x (← Emitting.bindings))) events := by
  intro st a st' h hag hcount
  change Emitting.rendering (x st.bindings) st = .ok a st' at h
  unfold Emitting.rendering at h
  split at h
  · next a₀ reads hrun =>
    cases h
    exact ⟨rfl, hx _ hag _ _ _ hrun hcount⟩
  · cases h

end Emitting.Reads

/-! ## Rules -/

namespace Follows

variable {x : Emitting α} {f : α → Emitting β} {out : Walking} {events : List UsageEvent}

/-- A silent emission follows a walk over nothing. -/
theorem silent (hx : Silent x) : Follows cx P b x (pure b) := by
  intro st a st' h hag _
  obtain ⟨hb, hr⟩ := hx st a st' h
  rw [hb, hr]
  exact ⟨rfl, hag, .nothing fun _ => rfl⟩

/-- A silent emission in front follows nothing of the walk. -/
theorem silent_bind (hx : Silent x) (hf : ∀ a, Follows cx P b (f a) out) :
    Follows cx P b (x >>= f) out := by
  intro st c st'' h hag hcount
  obtain ⟨a, st', h₁, h₂⟩ := Emitting.exists_of_run_bind h
  obtain ⟨hb, hr⟩ := hx st a st' h₁
  have hstep := hf a st' c st'' h₂ (hb ▸ hag) hcount
  rwa [hb, hr] at hstep

/-- A silent emission behind follows nothing of the walk. -/
theorem bind_silent (hx : Follows cx P b x out) (hf : ∀ a, Silent (f a)) :
    Follows cx P b (x >>= f) out := by
  intro st c st'' h hag hcount
  obtain ⟨a, st', h₁, h₂⟩ := Emitting.exists_of_run_bind h
  obtain ⟨hb, hr⟩ := hf a st' c st'' h₂
  rw [hb, hr]
  exact hx st a st' h₁ hag hcount

/-- An expression is written before the rest. -/
theorem read (hx : Emitting.Reads cx P b x events) (hf : ∀ a, Follows cx P b (f a) out) :
    Follows cx P b (x >>= f) (Traced.tellAll events >>= fun _ => out) := by
  intro st c st'' h hag hcount
  obtain ⟨hevents, hout⟩ := cx.counts_append.1 hcount
  obtain ⟨a, st', h₁, h₂⟩ := Emitting.exists_of_run_bind h
  obtain ⟨hb, happ⟩ := hx st a st' h₁ hag hevents
  obtain ⟨houter, hag', happ'⟩ := hf a st' c st'' h₂ (hb ▸ hag) hout
  exact ⟨houter.trans (by rw [hb]), hag', happ.trans happ'⟩

/-- Two emissions in a row follow two walks in a row. -/
theorem bind {g : Bindings → Walking} (hx : Follows cx P b x out)
    (hf : ∀ a, Follows cx P out.value (f a) (g out.value)) :
    Follows cx P b (x >>= f) (out >>= g) := by
  intro st c st'' h hag hcount
  obtain ⟨hout, hg⟩ := cx.counts_append.1 hcount
  obtain ⟨a, st', h₁, h₂⟩ := Emitting.exists_of_run_bind h
  obtain ⟨houter, hag', happ⟩ := hx st a st' h₁ hag hout
  obtain ⟨houter', hag'', happ'⟩ := hf a st' c st'' h₂ hag' hg
  exact ⟨houter'.trans houter, hag'', happ.trans happ'⟩

/-- Declaring a variable follows the walk over its declaration. -/
theorem declare (name : String) (ty : Ty) (isParam : Bool) :
    Follows cx P b (declare name) (b.walkDeclare name ty isParam) := by
  intro st a st' h hag _
  change EStateM.Result.ok st.bindings.next
    { st with bindings := st.bindings.declare name } = .ok a st' at h
  cases h
  exact ⟨rfl, hag.declare name, .nothing fun _ => rfl⟩

/-- Indentation does not change what is followed. -/
theorem indented {x : Emitting Unit} (hx : Follows cx P b x out) : Follows cx P b (indented x) out :=
  .silent_bind (.modify (fun _ => rfl) fun _ => rfl) fun _ =>
    hx.bind_silent fun _ => .modify (fun _ => rfl) fun _ => rfl

/-- Lines that are captured follow the walk as they do elsewhere. -/
theorem captured {x : Emitting Unit} (hx : Follows cx P b x out) : Follows cx P b (captured x) out :=
  .silent_bind .get fun _ => .silent_bind (.modify (fun _ => rfl) fun _ => rfl) fun _ =>
    hx.bind_silent fun _ => .bind .get fun _ =>
      .bind (.modify (fun _ => rfl) fun _ => rfl) fun _ => .pure _

/-- A frame is opened and closed on both sides, so both scopes are those before it. -/
theorem framed {x : Emitting Unit} (hx : Follows cx P b.push x out) (hout : Walks b.push out) :
    Follows cx P b (framed x) (out >>= fun b => pure b.pop) := by
  intro st a st₃ h hag hcount
  rw [Traced.trace_bind, Traced.trace_pure, List.append_nil] at hcount ⊢
  obtain ⟨_, st₁, h₁, h⟩ := Emitting.exists_of_run_bind h
  cases h₁
  obtain ⟨_, st₂, h₂, h₃⟩ := Emitting.exists_of_run_bind h
  cases h₃
  obtain ⟨houter, hag', happ⟩ := hx _ _ _ h₂ hag.push hcount
  have hscope : st₂.bindings.pop.scope = st.bindings.scope := Scope.pop_eq_of_outer houter
  exact ⟨congrArg Scope.outer hscope, hag.of_scope hscope hout.scope_pop hag'.declared, happ⟩

/-- A frame that only the walk opens, and in which it declares nothing, changes no name. -/
theorem unframed (hx : Follows cx P b.push x out) (hout : out.value.scope = b.push.scope) :
    Follows cx P b x (out >>= fun b => pure b.pop) := by
  intro st a st' h hag hcount
  rw [Traced.trace_bind, Traced.trace_pure, List.append_nil] at hcount ⊢
  obtain ⟨houter, hag', happ⟩ := hx st a st' h hag.push_right hcount
  refine ⟨houter, ⟨fun name => ?_, hag'.declared⟩, happ⟩
  rw [hag'.lookup, Traced.value_bind, Traced.value_pure, Bindings.lookup?, Bindings.lookup?,
    Bindings.scope_pop, hout]
  rfl

end Follows

/-! ## Expressions at a point of the emission -/

/-- Emitting an expression reads what the walk over it does. -/
theorem emitExpr_reads (e : Expr) (hP : P → NoneOverfull cx.registry e.nodes) (pos : ReadPosition) :
    Emitting.Reads cx P b (emitExpr cx pos e) (e.usage r b pos) :=
  .rendering fun _ hag => e.render_reads hag hP pos

/-- Emitting a value reads what the walk over it does. -/
theorem emitValue_reads (e : Expr) (hP : P → NoneOverfull cx.registry e.nodes)
    (expected : Option Ty) : Emitting.Reads cx P b (emitValue cx expected e) (e.usage r b .value) :=
  .rendering fun _ hag => Expr.renderValue_reads hag hP expected

/-- Neither side reads a bare name that is assigned to. -/
theorem emitTarget_reads (target : Expr) (hP : P → NoneOverfull cx.registry target.nodes) :
    Emitting.Reads cx P b (emitTarget cx target) (target.placeUsage r b) := by
  unfold emitTarget Expr.placeUsage
  cases target.ident? with
  | some name =>
    refine .pure _ ?_
    dsimp only
    split <;> rfl
  | none =>
    have hread : ∀ b', b'.Agree b →
        Rendering.Reads cx P (target.render cx b' .borrow) (target.usage r b .borrow) :=
      fun b' hag => target.render_reads hag hP .borrow
    exact .rendering fun b' hag => (hread b' hag).congr (by simp)

/-- The patterns that are written without rendering an expression have nothing to read. -/
theorem emitPattern_reads (value : Expr) (hP : P → NoneOverfull cx.registry value.nodes)
    (scrutineeTy : Ty) :
    Emitting.Reads cx P b (emitPattern cx scrutineeTy value) (value.usage r b .borrow) := by
  obtain ⟨span, kind, ty⟩ := value
  unfold emitPattern
  split
  all_goals try
    next hkind =>
      subst hkind
      exact .pure _ rfl
  exact (emitExpr_reads _ hP .borrow).map fun _ => .pure _

/-- Emitting the pattern of a case reads what the walk over its value does. -/
theorem emitCasePattern_reads (value : Option Expr)
    (hP : P → NoneOverfull cx.registry (Expr.nodes? value)) (scrutineeTy : Ty) :
    Emitting.Reads cx P b (emitCasePattern cx scrutineeTy value) (Expr.usage? r b .borrow value) := by
  cases value with
  | none => exact .pure _ rfl
  | some value => exact emitPattern_reads value hP scrutineeTy

/-! ## Statements -/

/-- The alternative of a conditional, in a frame of its own. -/
theorem follows_alternative {stmts : List Stmt} (span : Span)
    (h : Follows cx P b.push (Stmt.emitList cx stmts) (Stmt.usageList r b.push stmts)) :
    Follows cx P b (do line "\x7d else \x7b"; indented (framed (Stmt.emitList cx stmts)))
      (Block.usage? r b (some ⟨span, stmts⟩)) :=
  .silent_bind (.line _) fun _ => .indented (h.framed (Stmt.usageList_walks r stmts _))

/-- The arm of a case. A case without statements gets no frame, and the walk finds nothing in its. -/
theorem follows_case (pattern : String) {body : List Stmt}
    (h : Follows cx P b.push (Stmt.emitCaseBody cx body) (Stmt.usageList r b.push body)) :
    Follows cx P b
      (captured do
        if isEmptyCase body then line (pattern ++ " => \x7b\x7d")
        else do
          line (pattern ++ " => \x7b")
          indented (framed (Stmt.emitCaseBody cx body))
          line "\x7d")
      (Stmt.usageList r b.push body >>= fun b => pure b.pop) := by
  refine .captured ?_
  split
  · next hempty =>
    unfold isEmptyCase at hempty
    split at hempty
    · exact .silent (.line _)
    · exact .silent (.line _)
    · cases hempty
  · exact .silent_bind (.line _) fun _ =>
      .bind_silent (.indented (h.framed (Stmt.usageList_walks r body _))) fun _ => .line _

mutual

/-- Emitting a statement follows the walk over it. -/
theorem Stmt.emit_follows :
    (s : Stmt) → (P → NoneOverfull cx.registry s.nodes) → (b : Bindings) →
      Follows cx P b (s.emit cx) (s.usage r b)
  | .letVar _ name ty mutable none, _, b => by
    rw [Stmt.emit, Stmt.usage]
    exact .read (.pure _ rfl) fun _ => .bind_silent (.declare name _ false) fun _ => .line _
  | .letVar _ name ty mutable (some init), hP, b => by
    rw [Stmt.nodes] at hP
    rw [Stmt.emit, Stmt.usage, Expr.usage?]
    exact .read (emitValue_reads _ hP ty) fun _ => .silent_bind (.pure _) fun _ =>
      .bind_silent (.declare name _ false) fun _ => .line _
  | .assign _ target value, hP, b => by
    rw [Stmt.nodes] at hP
    rw [Stmt.emit, Stmt.usage]
    exact .read (emitTarget_reads _ fun hp => (hP hp).left) fun _ =>
      .read (emitValue_reads _ (fun hp => (hP hp).right) _) fun _ => .silent (.line _)
  | .ret _ (some value), hP, b => by
    rw [Stmt.nodes] at hP
    rw [Stmt.emit, Stmt.usage, Expr.usage?]
    exact .read (emitValue_reads _ hP _) fun _ => .silent (.line _)
  | .ret _ none, _, b => by
    rw [Stmt.emit]
    exact .silent (.line _)
  | .ifElse _ cond thenBlock elseBlock, hP, b => by
    rw [Stmt.nodes] at hP
    rw [Stmt.emit, Stmt.usage]
    exact .read (emitExpr_reads _ (fun hp => (hP hp).left) .borrow) fun _ =>
      .silent_bind (.line _) fun _ =>
        .bind (thenBlock.emit_follows (fun hp => (hP hp).right.left) b) fun _ =>
          (Block.emitElse_follows elseBlock (fun hp => (hP hp).right.right) _).bind_silent
            fun _ => .line _
  | .whileLoop _ cond body, hP, b => by
    rw [Stmt.nodes] at hP
    rw [Stmt.emit, Stmt.usage]
    exact .read (emitExpr_reads _ (fun hp => (hP hp).left) .borrow) fun _ =>
      .silent_bind (.line _) fun _ =>
        (body.emit_follows (fun hp => (hP hp).right) b).bind_silent fun _ => .line _
  | .forEach _ var iterable body, hP, b => by
    rw [Stmt.nodes] at hP
    rw [Stmt.emit, Stmt.usage]
    refine .read (emitExpr_reads _ (fun hp => (hP hp).left) .borrow) fun _ => .bind_silent ?_ fun _ =>
      .line _
    rw [← Traced.bind_assoc]
    exact .framed (.bind (.declare var _ false) fun _ => .silent_bind (.line _) fun _ =>
      body.emit_follows (fun hp => (hP hp).right) _) (.bind (.declare ..) (body.usage_walks r _))
  | .switch _ scrutinee cases, hP, b => by
    rw [Stmt.nodes] at hP
    rw [Stmt.emit, Stmt.usage]
    refine .read (emitExpr_reads _ (fun hp => (hP hp).left) .borrow) fun _ =>
      .silent_bind (.line _) fun _ => .bind_silent (.indented ?_) fun _ => .line _
    refine (SwitchCase.emitArms_follows _ cases (fun hp => (hP hp).right) b).bind_silent fun arms =>
      .bind (.append _) fun _ => .bind (.append _) fun _ => ?_
    split
    · exact .pure _
    · exact .line _
  | .breakLoop _, _, b | .continueLoop _, _, b => by
    rw [Stmt.emit]
    exact .silent (.line _)
  | .expr e, hP, b => by
    rw [Stmt.nodes] at hP
    rw [Stmt.emit, Stmt.usage]
    exact .read (emitExpr_reads _ hP .value) fun _ => .silent (.line _)
  | .block body, hP, b => by
    rw [Stmt.nodes] at hP
    rw [Stmt.emit, Stmt.usage]
    exact .silent_bind (.line _) fun _ => (body.emit_follows hP b).bind_silent fun _ => .line _

/-- Emitting statements follows the walk over them. -/
theorem Stmt.emitList_follows :
    (ss : List Stmt) → (P → NoneOverfull cx.registry (Stmt.nodesList ss)) → (b : Bindings) →
      Follows cx P b (Stmt.emitList cx ss) (Stmt.usageList r b ss)
  | [], _, b => .silent (.pure _)
  | s :: ss, hP, b => by
    rw [Stmt.emitList, Stmt.usageList]
    exact .bind (s.emit_follows (fun hp => (hP hp).left) b) fun _ =>
      Stmt.emitList_follows ss (fun hp => (hP hp).right) _

/-- Emitting a block follows the walk over it. -/
theorem Block.emit_follows :
    (body : Block) → (P → NoneOverfull cx.registry body.nodes) → (b : Bindings) →
      Follows cx P b (body.emit cx) (body.usage r b)
  | ⟨_, stmts⟩, hP, b => by
    rw [Block.nodes] at hP
    rw [Block.emit, Block.usage]
    exact .indented ((Stmt.emitList_follows stmts hP b.push).framed (Stmt.usageList_walks r stmts _))

/-- A conditional that continues the chain is emitted in the frame around it, and the walk opens an
empty frame for it; the bindings agree all the same. -/
theorem Block.emitElse_follows :
    (body : Option Block) → (P → NoneOverfull cx.registry (Block.nodes? body)) → (b : Bindings) →
      Follows cx P b (Block.emitElse cx body) (Block.usage? r b body)
  | none, _, b => .silent (.pure _)
  | some ⟨_, [s]⟩, hP, b => by
    rw [Block.nodes?, Block.nodes] at hP
    cases s with
    | ifElse span cond thenBlock elseBlock =>
      rw [Stmt.nodesList, Stmt.nodes] at hP
      rw [Block.emitElse, Block.usage?, Block.usage, Stmt.usageList_singleton, Stmt.usage]
      refine .unframed ?_ ((Block.usage?_scope ..).trans (Block.usage_scope ..))
      exact .read (emitExpr_reads _ (fun hp => (hP hp).left.left) .borrow) fun _ =>
        .silent_bind (.line _) fun _ =>
          .bind (thenBlock.emit_follows (fun hp => (hP hp).left.right.left) b.push) fun _ =>
            Block.emitElse_follows elseBlock (fun hp => (hP hp).left.right.right) _
    | _ => exact follows_alternative _ (Stmt.emitList_follows _ hP b.push)
  | some ⟨_, []⟩, hP, b => by
    rw [Block.nodes?, Block.nodes] at hP
    exact follows_alternative _ (Stmt.emitList_follows _ hP b.push)
  | some ⟨_, s :: s' :: ss⟩, hP, b => by
    rw [Block.nodes?, Block.nodes] at hP
    rw [Block.emitElse]
    · exact follows_alternative _ (Stmt.emitList_follows (s :: s' :: ss) hP b.push)
    · nofun

/-- Emitting the arms of a switch follows the walk over its cases. -/
theorem SwitchCase.emitArms_follows (scrutineeTy : Ty) :
    (cases : List SwitchCase) → (P → NoneOverfull cx.registry (SwitchCase.nodesList cases)) →
      (b : Bindings) →
      Follows cx P b (SwitchCase.emitArms cx scrutineeTy cases) (SwitchCase.usageList r b cases)
  | [], _, b => .silent (.pure _)
  | ⟨_, value, body, _⟩ :: cases, hP, b => by
    rw [SwitchCase.nodesList] at hP
    rw [SwitchCase.emitArms, SwitchCase.usageList]
    have hbody := Stmt.emitCaseBody_follows body (fun hp => (hP hp).right.left) b.push
    refine .read (emitCasePattern_reads value (fun hp => (hP hp).left) scrutineeTy) fun pattern => ?_
    have hcases := (follows_case pattern hbody).bind (g := fun b => SwitchCase.usageList r b cases)
      fun lines => .bind_silent
        (SwitchCase.emitArms_follows scrutineeTy cases (fun hp => (hP hp).right.right) _)
        fun arms => .pure (⟨value.isNone, lines⟩ :: arms)
    rw [Traced.bind_assoc] at hcases
    dsimp only
    split
    · exact .silent_bind (.noteFallthrough pattern) fun _ => hcases
    · exact hcases

/-- Emitting the body of a case follows the walk over it; the `break` that ends it reads nothing. -/
theorem Stmt.emitCaseBody_follows :
    (ss : List Stmt) → (P → NoneOverfull cx.registry (Stmt.nodesList ss)) → (b : Bindings) →
      Follows cx P b (Stmt.emitCaseBody cx ss) (Stmt.usageList r b ss)
  | [], _, b => .silent (.pure _)
  | [s], hP, b => by
    rw [Stmt.nodesList] at hP
    rw [Stmt.usageList_singleton]
    cases s with
    | breakLoop span => exact .silent (.pure _)
    | _ => exact .bind_silent (Stmt.emit_follows _ (fun hp => (hP hp).left) b) fun _ => .pure _
  | s :: s' :: ss, hP, b => by
    rw [Stmt.nodesList] at hP
    rw [Stmt.emitCaseBody, Stmt.usageList]
    · exact .bind (s.emit_follows (fun hp => (hP hp).left) b) fun _ =>
        Stmt.emitCaseBody_follows (s' :: ss) (fun hp => (hP hp).right) _
    · nofun

end

end

end Oxidize
