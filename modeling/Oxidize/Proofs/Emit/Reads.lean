import Oxidize.Emit.Expr
import Oxidize.Proofs.Nodes
import Oxidize.Proofs.Usage.Walk

/-!
# The reads that rendering an expression writes

Rendering and the usage walk visit the variables of an expression in the same order and in the same
positions. `Rendering.Reads` states this of a rendering, relative to the events of a walk, and has a
rule for each way of putting renderings together; `Expr.render_reads` then follows the recursion of
`Expr.render`. Rendering may leave reads out in one place only: a variant with named fields drops the
data past its last field (`Expr.isOverfull`). The proposition `P` carried along stands for "no such
variant occurs", under which nothing is left out.
-/

namespace Oxidize

/-- A variant with named fields that carries more data than it has fields. -/
def Expr.isOverfull (r : Registry) (e : Expr) : Bool :=
  match e.kind with
  | .variant enumName variant (some data) =>
    match r.variantShape? enumName variant with
    | some (.struct decls) => decide (decls.length < data.length)
    | _ => false
  | _ => false

/-- None of the expressions is a variant with more data than fields. -/
def NoneOverfull (r : Registry) (nodes : List Expr) : Prop :=
  ∀ e ∈ nodes, e.isOverfull r = false

namespace NoneOverfull

variable {r : Registry} {e : Expr} {a b : List Expr}

/-- What is inside an expression has no overfull variant if the whole has none. -/
theorem inside (h : NoneOverfull r (e :: a)) : NoneOverfull r a :=
  fun n hn => h n (.tail _ hn)

/-- The first expressions have no overfull variant if all have none. -/
theorem left (h : NoneOverfull r (a ++ b)) : NoneOverfull r a :=
  fun n hn => h n (List.mem_append_left _ hn)

/-- The last expressions have no overfull variant if all have none. -/
theorem right (h : NoneOverfull r (a ++ b)) : NoneOverfull r b :=
  fun n hn => h n (List.mem_append_right _ hn)

end NoneOverfull

/-- The variable and the position of a read that has been written. -/
def Read.key (rd : Read) : BindingId × ReadPosition :=
  (rd.id, rd.pos)

/-- Each read, written after the given ones, is cloned as the countdown of its variable says. -/
def FnContext.Flagged (cx : FnContext) : List Read → List Read → Prop
  | _, [] => True
  | written, rd :: rest =>
    (∃ u, cx.usage.bindings[rd.id]? = some u ∧
      rd.cloned = (rd.pos == .value && cx.usage.needsDuplication.contains rd.id &&
        decide (0 < u.reads - (written.countP (·.id == rd.id) + 1)))) ∧
    cx.Flagged (written ++ [rd]) rest

/-- Reads in a row are cloned as the countdown says, the last ones behind the first. -/
theorem FnContext.flagged_append (cx : FnContext) (written a b : List Read) :
    cx.Flagged written (a ++ b) ↔ cx.Flagged written a ∧ cx.Flagged (written ++ a) b := by
  induction a generalizing written with
  | nil => simp [FnContext.Flagged]
  | cons rd a ih =>
    simp only [List.cons_append, FnContext.Flagged, ih, and_assoc]
    rw [List.append_assoc, List.singleton_append]

/-- From `reads` to `reads'` some of the reads among the events are written, all of them under `P`,
each cloned as the countdown says. -/
def Appends (cx : FnContext) (P : Prop) (reads reads' : List Read) (events : List UsageEvent) :
    Prop :=
  ∃ new, reads' = reads ++ new ∧ (new.map Read.key).Sublist (readsIn events) ∧
    (P → new.map Read.key = readsIn events) ∧ cx.Flagged reads new

section
variable {cx : FnContext} {P : Prop}

/-- Nothing is written where there is nothing to read, or where something may be left out. -/
theorem Appends.nothing {reads : List Read} {events : List UsageEvent}
    (h : P → readsIn events = []) : Appends cx P reads reads events :=
  ⟨[], by simp, List.nil_sublist _, fun hp => (h hp).symm, trivial⟩

/-- Reads that are written in a row are the reads among events in a row. -/
theorem Appends.trans {reads reads' reads'' : List Read} {events events' : List UsageEvent}
    (h : Appends cx P reads reads' events) (h' : Appends cx P reads' reads'' events') :
    Appends cx P reads reads'' (events ++ events') := by
  obtain ⟨new, rfl, hsub, heq, hflag⟩ := h
  obtain ⟨new', rfl, hsub', heq', hflag'⟩ := h'
  refine ⟨new ++ new', List.append_assoc .., ?_, fun hp => ?_, ?_⟩
  · rw [List.map_append, readsIn_append]
    exact hsub.append hsub'
  · rw [List.map_append, readsIn_append, heq hp, heq' hp]
  · exact (cx.flagged_append ..).2 ⟨hflag, hflag'⟩

/-! ## Rules for renderings -/

/-- The report counts the variables that are read. -/
def FnContext.Counts (cx : FnContext) (events : List UsageEvent) : Prop :=
  ∀ k ∈ readsIn events, k.1 < cx.usage.bindings.length

/-- The report counts the variables of events in a row if it counts those of both parts. -/
theorem FnContext.counts_append {events events' : List UsageEvent} :
    cx.Counts (events ++ events') ↔ cx.Counts events ∧ cx.Counts events' := by
  rw [FnContext.Counts, readsIn_append]
  exact List.forall_mem_append

/-- A rendering goes on with the result of its first part. -/
theorem Rendering.run_bind {α β : Type} {x : Rendering α} {f : α → Rendering β}
    {reads reads' : List Read} {a : α} (h : x.run reads = .ok (a, reads')) :
    (x >>= f).run reads = (f a).run reads' := by
  rw [StateT.run_bind, h]
  rfl

/-- Two renderings in a row succeed if the first one does and then the second one. -/
theorem Rendering.exists_of_run_bind {α β : Type} {x : Rendering α} {f : α → Rendering β}
    {reads reads'' : List Read} {c : β} (h : (x >>= f).run reads = .ok (c, reads'')) :
    ∃ a reads', x.run reads = .ok (a, reads') ∧ (f a).run reads' = .ok (c, reads'') := by
  rw [StateT.run_bind] at h
  cases hrun : x.run reads with
  | error e => rw [hrun] at h; cases h
  | ok p => exact ⟨p.1, p.2, rfl, by rwa [hrun] at h⟩

/-- A rendering that succeeds writes the reads among the events. -/
def Rendering.Reads (cx : FnContext) (P : Prop) {α : Type} (x : Rendering α)
    (events : List UsageEvent) : Prop :=
  ∀ reads a reads', x.run reads = .ok (a, reads') → cx.Counts events →
    Appends cx P reads reads' events

namespace Rendering.Reads

variable {α β : Type} {x : Rendering α} {events events' : List UsageEvent}

/-- A result that is given writes no read. -/
theorem pure (a : α) (h : P → readsIn events = []) :
    Rendering.Reads cx P (Pure.pure a : Rendering α) events := by
  rintro reads a' reads' ⟨⟩ _
  exact .nothing h

/-- A rendering that fails has no reads to account for. -/
theorem throw (e : PendingLiteral) :
    Rendering.Reads cx P (MonadExcept.throw e : Rendering α) events := by
  intro reads a' reads' h _
  cases h

/-- Two renderings in a row write the reads of both. -/
theorem bind {f : α → Rendering β} (hx : Rendering.Reads cx P x events)
    (hf : ∀ a, Rendering.Reads cx P (f a) events') :
    Rendering.Reads cx P (x >>= f) (events ++ events') := by
  intro reads c reads'' h hcount
  obtain ⟨hevents, hevents'⟩ := cx.counts_append.1 hcount
  obtain ⟨a, reads', hrun, h⟩ := Rendering.exists_of_run_bind h
  exact (hx reads a reads' hrun hevents).trans (hf a reads' c reads'' h hevents')

/-- What is done with the text of a rendering writes no read. -/
theorem map {f : α → Rendering β} (hx : Rendering.Reads cx P x events)
    (hf : ∀ a, Rendering.Reads cx P (f a) []) : Rendering.Reads cx P (x >>= f) events := by
  have h := hx.bind hf
  rwa [List.append_nil] at h

/-- Only the reads among the events count. -/
theorem congr (hx : Rendering.Reads cx P x events) (h : readsIn events = readsIn events') :
    Rendering.Reads cx P x events' := by
  intro reads a reads' hrun hcount
  rw [FnContext.Counts, ← h] at hcount
  obtain ⟨new, heq, hsub, hall, hflag⟩ := hx reads a reads' hrun hcount
  rw [h] at hsub hall
  exact ⟨new, heq, hsub, hall, hflag⟩

end Rendering.Reads

/-! ## Variables -/

variable {b b' : Bindings} {r : Option Registry}

/-- A read of a variable that is counted is cloned if the countdown says that more reads follow. -/
theorem readVar_run_of_lookup {name : String} {pos : ReadPosition} {id : BindingId} {u : VarUsage}
    (hl : b.lookup? name = some id) (hu : cx.usage.bindings[id]? = some u) (reads : List Read) :
    (readVar cx b name pos).run reads =
      let cloned := pos == .value && cx.usage.needsDuplication.contains id &&
        decide (0 < u.reads - (reads.countP (·.id == id) + 1))
      .ok (if cloned then Name.value name ++ ".clone()" else Name.value name,
        reads ++ [⟨id, pos, cloned⟩]) := by
  unfold readVar
  simp only [hl, hu]
  rfl

/-- A name that is no variable is written as it is, and no read is noted. -/
theorem readVar_run_of_not_lookup {name : String} {pos : ReadPosition}
    (hl : b.lookup? name = none) (reads : List Read) :
    (readVar cx b name pos).run reads = .ok (Name.value name, reads) := by
  unfold readVar
  simp only [hl]
  rfl

/-- A variable that is not counted is written as it is, and no read is noted. -/
theorem readVar_run_of_not_counted {name : String} {pos : ReadPosition} {id : BindingId}
    (hl : b.lookup? name = some id) (hu : cx.usage.bindings[id]? = none) (reads : List Read) :
    (readVar cx b name pos).run reads = .ok (Name.value name, reads) := by
  unfold readVar
  simp only [hl, hu]
  rfl

/-- The text of a read is the name of the variable, cloned exactly if the record of it says so. -/
theorem readVar_text (cx : FnContext) (b : Bindings) (name : String) (pos : ReadPosition)
    (reads : List Read) :
    ∃ text reads', (readVar cx b name pos).run reads = .ok (text, reads') ∧
      ((reads' = reads ∧ text = Name.value name) ∨
        ∃ rd, reads' = reads ++ [rd] ∧ b.lookup? name = some rd.id ∧ rd.pos = pos ∧
          text = if rd.cloned then Name.value name ++ ".clone()" else Name.value name) := by
  cases hl : b.lookup? name with
  | none => exact ⟨_, _, readVar_run_of_not_lookup hl reads, .inl ⟨rfl, rfl⟩⟩
  | some id =>
    cases hu : cx.usage.bindings[id]? with
    | some u => exact ⟨_, _, readVar_run_of_lookup hl hu reads, .inr ⟨_, rfl, rfl, rfl, rfl⟩⟩
    | none => exact ⟨_, _, readVar_run_of_not_counted hl hu reads, .inl ⟨rfl, rfl⟩⟩

/-- A variable is read by the rendering exactly where the walk reads it. -/
theorem readVar_reads (hag : b.Agree b') (name : String) (pos : ReadPosition) :
    Rendering.Reads cx P (readVar cx b name pos) (readEvents b' name pos) := by
  intro reads text reads' h hcount
  unfold readEvents at hcount ⊢
  rw [← hag.lookup] at hcount ⊢
  cases hl : b.lookup? name with
  | none =>
    rw [readVar_run_of_not_lookup hl] at h
    cases h
    exact .nothing fun _ => rfl
  | some id =>
    rw [hl] at hcount
    obtain ⟨u, hu⟩ : ∃ u, cx.usage.bindings[id]? = some u :=
      ⟨_, List.getElem?_eq_getElem (hcount (id, pos) (.head _))⟩
    rw [readVar_run_of_lookup hl hu] at h
    cases h
    exact ⟨[_], rfl, List.Sublist.refl _, fun _ => rfl, ⟨u, hu, rfl⟩, trivial⟩

/-! ## Expressions -/

/-- The walk finds nothing in `null`. -/
theorem Expr.usage_of_isNull {e : Expr} (h : e.isNull = true) (pos : ReadPosition) :
    e.usage r b pos = [] := by
  obtain ⟨span, kind, ty⟩ := e
  unfold Expr.isNull at h
  split at h
  · next hk =>
    subst hk
    rfl
  · cases h

/-- The namespace of a constant is no variable, so there is nothing to read in it. -/
theorem Expr.usage_of_namespaceConstant {object : Expr} {field : String} {c : Constant}
    (h : namespaceConstant? object field b.isLocal = some c) (pos : ReadPosition) :
    object.usage r b pos = [] := by
  obtain ⟨ns, hns, -⟩ := Option.bind_eq_some_iff.1 h
  obtain ⟨span, kind, ty⟩ := object
  simp only [namespaceOf?, Expr.ident?] at hns
  cases kind with
  | ident name =>
    simp only [Bindings.isLocal, Scope.isLocal] at hns
    have hl : b.lookup? name = none := by
      cases hl : b.lookup? name with
      | none => rfl
      | some id => rw [Bindings.lookup?] at hl; simp [hl] at hns
    simp [Expr.usage, readEvents, hl]
  | _ => cases hns

mutual

/-- Rendering an expression writes the reads that the walk lists. -/
theorem Expr.render_reads (hag : b.Agree b') :
    (e : Expr) → (P → NoneOverfull cx.registry e.nodes) → (pos : ReadPosition) →
      Rendering.Reads cx P (e.render cx b pos) (e.usage r b' pos)
  | ⟨_, .literal value, _⟩, _, _ => by
    rw [Expr.render]
    exact .pure _ fun _ => rfl
  | ⟨_, .ident name, _⟩, _, pos => by
    rw [Expr.render, Expr.usage]
    exact readVar_reads hag name pos
  | ⟨_, .unary _ expr, _⟩, hP, _ | ⟨_, .cast expr _, _⟩, hP, _ => by
    rw [Expr.render, Expr.usage]
    exact (expr.render_reads hag (fun hp => (hP hp).inside) .value).map fun _ =>
      .pure _ fun _ => rfl
  | ⟨_, .binary op left right, _⟩, hP, _ => by
    have hl := left.render_reads hag (fun hp => (hP hp).inside.left)
      (.ofOperands op left right)
    have hr := right.render_reads hag (fun hp => (hP hp).inside.right)
      (.ofOperands op left right)
    rw [Expr.render, Expr.usage]
    split
    · exact hl.bind fun _ => hr.map fun _ => .pure _ fun _ => rfl
    · split
      · next hnull =>
        rw [right.usage_of_isNull (Bool.and_eq_true_iff.1 hnull).2, List.append_nil]
        exact hl.map fun _ => .pure _ fun _ => rfl
      · split
        · next hnull =>
          rw [left.usage_of_isNull (Bool.and_eq_true_iff.1 hnull).2, List.nil_append]
          exact hr.map fun _ => .pure _ fun _ => rfl
        · exact hl.bind fun _ => hr.map fun _ => .pure _ fun _ => rfl
  | ⟨_, .call callee args, _⟩, hP, _ => by
    rw [Expr.render, Expr.usage]
    exact (Expr.renderArgs_reads hag .value args (fun hp => (hP hp).inside) _).map fun _ =>
      .pure _ fun _ => rfl
  | ⟨_, .methodCall object method ns args objectTy, _⟩, hP, _ => by
    have hargs := fun pos => Expr.renderArgs_reads hag pos args
      (fun hp => (hP hp).inside.right)
    rw [Expr.render, Expr.usage, hag.isLocal]
    cases namespaceOf? ns object b'.isLocal with
    | some ns =>
      refine (hargs _ _).map fun _ => ?_
      split <;> exact .pure _ fun _ => rfl
    | none =>
      have hobj := object.render_reads hag (fun hp => (hP hp).inside.left) .borrow
      -- a change in place is an event of the walk but no read
      refine (hobj.bind fun _ => ?_ : Rendering.Reads cx P _
        (_ ++ Expr.usageList r b' .value args)).congr ?_
      · split <;> exact (hargs _ _).map fun _ => .pure _ fun _ => rfl
      · rw [readsIn_append, readsIn_append, readsIn_append]
        split <;> simp [ReadPosition.ofMethodArgs]
  | ⟨_, .index object index, _⟩, hP, _ => by
    rw [Expr.render, Expr.usage]
    exact (object.render_reads hag (fun hp => (hP hp).inside.left) .borrow).bind fun _ =>
      (index.render_reads hag (fun hp => (hP hp).inside.right) .value).map fun _ =>
        .pure _ fun _ => rfl
  | ⟨_, .field object field objectTy, _⟩, hP, _ => by
    rw [Expr.render, Expr.usage, hag.isLocal]
    split
    · next hc => exact .pure _ fun _ => by rw [object.usage_of_namespaceConstant hc, readsIn_nil]
    · exact (object.render_reads hag (fun hp => (hP hp).inside) .borrow).map fun _ =>
        .pure _ fun _ => rfl
  | ⟨_, .array items, _⟩, hP, _ => by
    rw [Expr.render, Expr.usage]
    exact (Expr.renderArgs_reads hag .value items (fun hp => (hP hp).inside) _).map fun _ =>
      .pure _ fun _ => rfl
  | ⟨_, .tuple items, _⟩, hP, _ =>
    (Expr.renderArgs_reads hag .value items (fun hp => (hP hp).inside) _).map fun _ =>
      .pure _ fun _ => rfl
  | ⟨_, .aggregate .pending _, _⟩, _, _ => by
    rw [Expr.render]
    exact .throw _
  | ⟨_, .aggregate (.named name) fields, _⟩, hP, _ => by
    rw [Expr.render, Expr.usage]
    exact (FieldInit.renderList_reads hag name fields fun hp => (hP hp).inside).map fun _ =>
      .pure _ fun _ => rfl
  | ⟨_, .variant _ _ none, _⟩, _, _ => by
    rw [Expr.render]
    exact .pure _ fun _ => rfl
  | ⟨_, .variant enumName variant (some data), _⟩, hP, _ => by
    have hargs := fun params => Expr.renderArgs_reads hag .value data
      (fun hp => (hP hp).inside) params
    rw [Expr.render, Expr.usage]
    split
    · next decls hshape =>
      refine (Expr.renderFields_reads hag data (fun hp => (hP hp).inside) decls
        fun hp => ?_).map fun _ => .pure _ fun _ => rfl
      have hfull := hP hp _ (.head _)
      cases hv : cx.registry.variantShape? enumName variant with
      | none => rw [hv] at hshape; cases hshape
      | some shape =>
        rw [hv] at hshape
        cases hshape
        simpa [Expr.isOverfull, hv] using hfull
    · exact (hargs _).map fun _ => .pure _ fun _ => rfl
    · exact (hargs _).map fun _ => .pure _ fun _ => rfl
  | ⟨_, .ternary cond thenExpr elseExpr, _⟩, hP, pos => by
    rw [Expr.render, Expr.usage]
    exact (cond.render_reads hag (fun hp => (hP hp).inside.left) .borrow).bind fun _ =>
      (thenExpr.render_reads hag (fun hp => (hP hp).inside.right.left) pos).bind fun _ =>
        (elseExpr.render_reads hag (fun hp => (hP hp).inside.right.right) pos).map fun _ =>
          .pure _ fun _ => rfl

/-- Rendering arguments writes the reads of the walk over them. -/
theorem Expr.renderArgs_reads (hag : b.Agree b') (pos : ReadPosition) :
    (es : List Expr) → (P → NoneOverfull cx.registry (Expr.nodesList es)) → (params : List Ty) →
      Rendering.Reads cx P (Expr.renderArgs cx b pos params es) (Expr.usageList r b' pos es)
  | [], _, _ => by
    rw [Expr.renderArgs]
    exact .pure _ fun _ => rfl
  | e :: es, hP, params => by
    rw [Expr.renderArgs, Expr.usageList]
    exact (e.render_reads hag (fun hp => (hP hp).left) pos).bind fun _ =>
      (Expr.renderArgs_reads hag pos es (fun hp => (hP hp).right) _).map fun _ =>
        .pure _ fun _ => rfl

/-- The data past the last field is dropped, and with it the reads in it. -/
theorem Expr.renderFields_reads (hag : b.Agree b') :
    (es : List Expr) → (P → NoneOverfull cx.registry (Expr.nodesList es)) →
      (decls : List FieldDecl) → (P → es.length ≤ decls.length) →
      Rendering.Reads cx P (Expr.renderFields cx b decls es) (Expr.usageList r b' .value es)
  | [], _, decls, _ => by
    have h : Expr.renderFields cx b decls [] = pure [] := by cases decls <;> rfl
    rw [h]
    exact .pure _ fun _ => rfl
  | _ :: _, _, [], hlen => .pure _ fun hp => absurd (hlen hp) (Nat.not_succ_le_zero _)
  | e :: es, hP, decl :: decls, hlen => by
    rw [Expr.renderFields, Expr.usageList]
    exact (e.render_reads hag (fun hp => (hP hp).left) .value).bind fun _ =>
      (Expr.renderFields_reads hag es (fun hp => (hP hp).right) decls
        fun hp => Nat.le_of_succ_le_succ (hlen hp)).map fun _ => .pure _ fun _ => rfl

/-- Rendering fields writes the reads of the walk over their values. -/
theorem FieldInit.renderList_reads (hag : b.Agree b') (struct : String) :
    (fields : List FieldInit) → (P → NoneOverfull cx.registry (FieldInit.nodesList fields)) →
      Rendering.Reads cx P (FieldInit.renderList cx b struct fields)
        (FieldInit.usageList r b' fields)
  | [], _ => by
    rw [FieldInit.renderList]
    exact .pure _ fun _ => rfl
  | ⟨_, value⟩ :: fields, hP => by
    rw [FieldInit.renderList, FieldInit.usageList]
    exact (value.render_reads hag (fun hp => (hP hp).left) .value).bind fun _ =>
      (FieldInit.renderList_reads hag struct fields fun hp => (hP hp).right).map fun _ =>
        .pure _ fun _ => rfl

end

/-- Rendering a value writes the reads of the walk over it. -/
theorem Expr.renderValue_reads (hag : b.Agree b') {e : Expr}
    (hP : P → NoneOverfull cx.registry e.nodes) (expected : Option Ty) :
    Rendering.Reads cx P (e.renderValue cx b expected) (e.usage r b' .value) :=
  (e.render_reads hag hP .value).map fun _ => .pure _ fun _ => rfl

end

end Oxidize
