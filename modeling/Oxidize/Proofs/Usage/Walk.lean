import Oxidize.Proofs.Scope
import Oxidize.Usage.Report

/-!
# The walk of the usage analysis

`readsIn` is the sequence of reads among the events of a walk, and `Walks` is what a walk does to the
bindings: it leaves the frames around the innermost one alone, it numbers exactly the variables whose
declarations it records, and it keeps the numbers in scope below the next one. The counts of a usage
report are counts over the whole walk of a function (`FunctionDecl.reads_of_usage`).
-/

namespace Oxidize

/-! ## Reads and declarations among events -/

/-- The variable and the position of a read. -/
def UsageEvent.read? : UsageEvent → Option (BindingId × ReadPosition)
  | .read id pos => some (id, pos)
  | _ => none

/-- The reads among events, in order. -/
def readsIn (events : List UsageEvent) : List (BindingId × ReadPosition) :=
  events.filterMap UsageEvent.read?

/-- Without events nothing is read. -/
@[simp] theorem readsIn_nil : readsIn [] = [] := rfl

/-- The reads of two parts in a row. -/
@[simp] theorem readsIn_append (a b : List UsageEvent) :
    readsIn (a ++ b) = readsIn a ++ readsIn b :=
  List.filterMap_append

/-- A change in place is no read. -/
@[simp] theorem readsIn_mutationEvents (b : Bindings) (place : Expr) :
    readsIn (mutationEvents b place) = [] := by
  unfold mutationEvents
  split <;> rfl

/-- The reads that a report counts for a variable are its reads in the walk. -/
theorem countP_isReadOf (id : BindingId) (events : List UsageEvent) :
    events.countP (·.isReadOf id) = (readsIn events).countP (·.1 == id) := by
  rw [readsIn, List.countP_filterMap]
  refine List.countP_congr fun event _ => ?_
  cases event <;> simp [UsageEvent.isReadOf, UsageEvent.read?]

/-- The declared variables of two parts in a row. -/
@[simp] theorem declaredVars_append (a b : List UsageEvent) :
    declaredVars (a ++ b) = declaredVars a ++ declaredVars b := by
  induction a with
  | nil => rfl
  | cons event a ih => cases event <;> simp [declaredVars, ih]

/-! ## Events of expressions -/

/-- The event happens to a variable in scope and is no declaration. -/
def UsageEvent.InScope (b : Bindings) : UsageEvent → Prop
  | .declare _ _ _ => False
  | .read id _ | .write id | .mutate id => ∃ name, b.lookup? name = some id

/-- The events happen to variables in scope, and none of them is a declaration. -/
def AllInScope (b : Bindings) (events : List UsageEvent) : Prop :=
  ∀ event ∈ events, event.InScope b

namespace AllInScope

variable {b : Bindings} {events events' : List UsageEvent}

/-- Without events all are about variables in scope. -/
theorem nil : AllInScope b [] :=
  fun _ h => nomatch h

/-- Events in a row are about variables in scope if both parts are. -/
theorem append (h : AllInScope b events) (h' : AllInScope b events') :
    AllInScope b (events ++ events') :=
  List.forall_mem_append.2 ⟨h, h'⟩

/-- A change in place is of a variable in scope. -/
theorem mutationEvents (b : Bindings) (place : Expr) : AllInScope b (mutationEvents b place) := by
  unfold Oxidize.mutationEvents
  split
  · next id h =>
    obtain ⟨name, -, hl⟩ := Option.bind_eq_some_iff.1 h
    exact List.forall_mem_singleton.2 ⟨name, hl⟩
  · exact nil

/-- A read is of a variable in scope. -/
theorem readEvents (b : Bindings) (name : String) (pos : ReadPosition) :
    AllInScope b (readEvents b name pos) := by
  unfold Oxidize.readEvents
  split
  · next id h => exact List.forall_mem_singleton.2 ⟨name, h⟩
  · exact nil

/-- Events about variables in scope declare none. -/
theorem declaredVars_eq_nil (h : AllInScope b events) : declaredVars events = [] := by
  induction events with
  | nil => rfl
  | cons event events ih =>
    obtain ⟨hevent, hrest⟩ := List.forall_mem_cons.1 h
    cases event with
    | declare => exact hevent.elim
    | read | write | mutate => exact ih hrest

/-- A read in scope is of a number that has been given. -/
theorem lt_next (h : AllInScope b events) (hb : b.Numbered) :
    ∀ k ∈ readsIn events, k.1 < b.next := by
  intro k hk
  obtain ⟨event, hevent, hk⟩ := List.mem_filterMap.1 hk
  cases event with
  | read id pos =>
    cases hk
    obtain ⟨name, hl⟩ := h _ hevent
    exact hb.lookup_lt hl
  | _ => cases hk

end AllInScope

mutual

/-- Everything that an expression does to variables happens to variables in scope. -/
theorem Expr.usage_inScope (r : Option Registry) (b : Bindings) :
    (e : Expr) → (pos : ReadPosition) → AllInScope b (e.usage r b pos)
  | ⟨_, .literal _, _⟩, _ | ⟨_, .variant _ _ none, _⟩, _ => .nil
  | ⟨_, .ident name, _⟩, pos => .readEvents b name pos
  | ⟨_, .unary _ expr, _⟩, _ | ⟨_, .cast expr _, _⟩, _ | ⟨_, .field expr _ _, _⟩, _ => by
    rw [Expr.usage]
    exact expr.usage_inScope r b _
  | ⟨_, .binary _ left right, _⟩, _ | ⟨_, .index left right, _⟩, _ => by
    rw [Expr.usage]
    exact (left.usage_inScope r b _).append (right.usage_inScope r b _)
  | ⟨_, .call _ items, _⟩, _ | ⟨_, .array items, _⟩, _ | ⟨_, .tuple items, _⟩, _
  | ⟨_, .variant _ _ (some items), _⟩, _ => by
    rw [Expr.usage]
    exact Expr.usageList_inScope r b items _
  | ⟨_, .methodCall object method ns args objectTy, _⟩, _ => by
    rw [Expr.usage]
    have hargs := Expr.usageList_inScope r b args
    split
    · exact hargs _
    · refine .append ?_ ((object.usage_inScope r b _).append (hargs _))
      split
      · exact .mutationEvents b object
      · exact .nil
  | ⟨_, .aggregate _ fields, _⟩, _ => by
    rw [Expr.usage]
    exact FieldInit.usageList_inScope r b fields
  | ⟨_, .ternary cond thenExpr elseExpr, _⟩, _ => by
    rw [Expr.usage]
    exact (cond.usage_inScope r b _).append
      ((thenExpr.usage_inScope r b _).append (elseExpr.usage_inScope r b _))

/-- The events of expressions are about variables in scope. -/
theorem Expr.usageList_inScope (r : Option Registry) (b : Bindings) :
    (es : List Expr) → (pos : ReadPosition) → AllInScope b (Expr.usageList r b pos es)
  | [], _ => .nil
  | e :: es, pos => (e.usage_inScope r b pos).append (Expr.usageList_inScope r b es pos)

/-- The events of fields are about variables in scope. -/
theorem FieldInit.usageList_inScope (r : Option Registry) (b : Bindings) :
    (fields : List FieldInit) → AllInScope b (FieldInit.usageList r b fields)
  | [] => .nil
  | ⟨_, value⟩ :: fields =>
    (value.usage_inScope r b .value).append (FieldInit.usageList_inScope r b fields)

end

/-- The events of an optional expression are about variables in scope. -/
theorem Expr.usage?_inScope (r : Option Registry) (b : Bindings) (pos : ReadPosition) :
    (e : Option Expr) → AllInScope b (Expr.usage? r b pos e)
  | none => .nil
  | some e => e.usage_inScope r b pos

/-- The events of the target of an assignment are about variables in scope. -/
theorem Expr.placeUsage_inScope (r : Option Registry) (b : Bindings) (target : Expr) :
    AllInScope b (target.placeUsage r b) := by
  unfold Expr.placeUsage
  split
  · next name _ =>
    split
    · next id hl => exact List.forall_mem_singleton.2 ⟨name, hl⟩
    · exact .nil
  · exact (AllInScope.mutationEvents b target).append (target.usage_inScope r b _)

/-! ## What a walk does to the bindings -/

/-- A walk from bindings `b` leaves the outer frames alone, numbers what it records as declared, and
reads and leaves in scope only numbers that have been given. -/
structure Walks (b : Bindings) (out : Walking) : Prop where
  outer : out.value.scope.outer = b.scope.outer
  declared : out.value.declared = b.declared ++ (declaredVars out.trace).map (·.1)
  numbered : b.Numbered → out.value.Numbered
  reads : b.Numbered → ∀ k ∈ readsIn out.trace, k.1 < out.value.next

namespace Walks

variable {b : Bindings} {out : Walking}

/-- Declarations only add to the numbers given. -/
theorem next_le (h : Walks b out) : b.next ≤ out.value.next := by
  rw [Bindings.next, Bindings.next, h.declared, List.length_append]
  exact Nat.le_add_right _ _

/-- A walk over nothing declares nothing. -/
theorem pure (b : Bindings) : Walks b (Pure.pure b) :=
  ⟨rfl, by simp [declaredVars], id, fun _ _ hk => nomatch hk⟩

/-- Events of expressions come before the rest of a walk. -/
theorem tell {events : List UsageEvent} (he : AllInScope b events) (h : Walks b out) :
    Walks b (Traced.tellAll events >>= fun _ => out) := by
  refine ⟨h.outer, ?_, h.numbered, fun hb k hk => ?_⟩
  · simp [Traced.tellAll, he.declaredVars_eq_nil, h.declared]
  · rw [Traced.trace_bind, readsIn_append] at hk
    rcases List.mem_append.1 hk with hk | hk
    · exact Nat.lt_of_lt_of_le (he.lt_next hb k hk) h.next_le
    · exact h.reads hb k hk

/-- Two walks in a row number what both declare. -/
theorem bind {f : Bindings → Walking} (h : Walks b out) (hf : Walks out.value (f out.value)) :
    Walks b (out >>= f) := by
  refine ⟨by rw [Traced.value_bind, hf.outer, h.outer], by simp [hf.declared, h.declared],
    fun hb => hf.numbered (h.numbered hb), fun hb k hk => ?_⟩
  rw [Traced.trace_bind, readsIn_append] at hk
  rcases List.mem_append.1 hk with hk | hk
  · exact Nat.lt_of_lt_of_le (h.reads hb k hk) hf.next_le
  · exact hf.reads (h.numbered hb) k hk

/-- A declaration gives the next number to the variable. -/
theorem declare (b : Bindings) (name : String) (ty : Ty) (isParam : Bool) :
    Walks b (b.walkDeclare name ty isParam) :=
  ⟨rfl, rfl, fun hb => hb.declare name, fun _ _ hk => nomatch hk⟩

/-- Closing the frame that a walk was given restores the scope. -/
theorem scope_pop (h : Walks b.push out) : out.value.pop.scope = b.scope :=
  Scope.pop_eq_of_outer h.outer

/-- What is declared in a frame keeps its number, though it is not visible behind it. -/
theorem framed (h : Walks b.push out) : Walks b (out >>= fun b => Pure.pure b.pop) := by
  refine ⟨congrArg Scope.outer h.scope_pop, by simp [h.declared],
    fun hb => (h.numbered hb.push).pop, fun hb k hk => ?_⟩
  rw [Traced.trace_bind, Traced.trace_pure, List.append_nil] at hk
  exact h.reads hb.push k hk

end Walks

mutual

/-- A statement declares variables in the innermost frame only. -/
theorem Stmt.usage_walks (r : Option Registry) : (s : Stmt) → (b : Bindings) → Walks b (s.usage r b)
  | .letVar _ name ty _ init, b => by
    rw [Stmt.usage]
    exact .tell (Expr.usage?_inScope r b _ init) (.declare b name _ false)
  | .assign _ target value, b => by
    rw [Stmt.usage]
    exact .tell (target.placeUsage_inScope r b) (.tell (value.usage_inScope r b _) (.pure b))
  | .ret _ value, b => by
    rw [Stmt.usage]
    exact .tell (Expr.usage?_inScope r b _ value) (.pure b)
  | .ifElse _ cond thenBlock elseBlock, b => by
    rw [Stmt.usage]
    exact .tell (cond.usage_inScope r b _)
      (.bind (thenBlock.usage_walks r b) (Block.usage?_walks r elseBlock _))
  | .whileLoop _ cond body, b => by
    rw [Stmt.usage]
    exact .tell (cond.usage_inScope r b _) (body.usage_walks r b)
  | .forEach _ var iterable body, b => by
    rw [Stmt.usage]
    have hbody := Walks.bind (f := fun b => body.usage r b)
      (.declare b.push var iterable.tyOrVoid.loopElement false) (body.usage_walks r _)
    refine .tell (iterable.usage_inScope r b _) ?_
    simpa only [Traced.bind_assoc] using hbody.framed
  | .switch _ scrutinee cases, b => by
    rw [Stmt.usage]
    exact .tell (scrutinee.usage_inScope r b _) (SwitchCase.usageList_walks r cases b)
  | .breakLoop _, b | .continueLoop _, b => .pure b
  | .expr e, b => by
    rw [Stmt.usage]
    exact .tell (e.usage_inScope r b _) (.pure b)
  | .block body, b => body.usage_walks r b

/-- The walk over statements numbers what they declare. -/
theorem Stmt.usageList_walks (r : Option Registry) :
    (ss : List Stmt) → (b : Bindings) → Walks b (Stmt.usageList r b ss)
  | [], b => .pure b
  | s :: ss, b => (s.usage_walks r b).bind (Stmt.usageList_walks r ss _)

/-- The walk over a block numbers what it declares. -/
theorem Block.usage_walks (r : Option Registry) :
    (body : Block) → (b : Bindings) → Walks b (body.usage r b)
  | ⟨_, stmts⟩, b => (Stmt.usageList_walks r stmts b.push).framed

/-- The walk over an optional block numbers what it declares. -/
theorem Block.usage?_walks (r : Option Registry) :
    (body : Option Block) → (b : Bindings) → Walks b (Block.usage? r b body)
  | none, b => .pure b
  | some body, b => body.usage_walks r b

/-- The walk over the cases of a switch numbers what they declare. -/
theorem SwitchCase.usageList_walks (r : Option Registry) :
    (cases : List SwitchCase) → (b : Bindings) → Walks b (SwitchCase.usageList r b cases)
  | [], b => .pure b
  | ⟨_, value, body, _⟩ :: cases, b => by
    rw [SwitchCase.usageList]
    have hcase := (Stmt.usageList_walks r body b.push).framed.bind
      (f := fun b => SwitchCase.usageList r b cases) (SwitchCase.usageList_walks r cases _)
    refine .tell (Expr.usage?_inScope r b _ value) ?_
    simpa only [Traced.bind_assoc, Traced.pure_bind] using hcase

end

/-- A single statement is walked over as it is alone. -/
theorem Stmt.usageList_singleton (r : Option Registry) (b : Bindings) (s : Stmt) :
    Stmt.usageList r b [s] = s.usage r b := by
  rw [Stmt.usageList]
  exact congrArg (Traced.mk _) (List.append_nil _)

/-- A block leaves the scope as it was. -/
theorem Block.usage_scope (r : Option Registry) (b : Bindings) :
    (body : Block) → (body.usage r b).value.scope = b.scope
  | ⟨_, stmts⟩ => (Stmt.usageList_walks r stmts b.push).scope_pop

/-- An optional block leaves the variables in scope as they are. -/
theorem Block.usage?_scope (r : Option Registry) (b : Bindings) :
    (body : Option Block) → (Block.usage? r b body).value.scope = b.scope
  | none => rfl
  | some body => body.usage_scope r b

/-- The cases of a switch leave the variables in scope as they are. -/
theorem SwitchCase.usageList_scope (r : Option Registry) :
    (cases : List SwitchCase) → (b : Bindings) →
      (SwitchCase.usageList r b cases).value.scope = b.scope
  | [], _ => rfl
  | ⟨_, _, body, _⟩ :: cases, b =>
    (SwitchCase.usageList_scope r cases _).trans (Stmt.usageList_walks r body b.push).scope_pop

/-- The names that a statement declares for those after it. -/
def Stmt.declares : Stmt → List String
  | .letVar _ name _ _ _ => [name]
  | _ => []

/-- A statement other than a declaration leaves the scope as it was. -/
theorem Stmt.usage_scope (r : Option Registry) (b : Bindings) {s : Stmt} (h : s.declares = []) :
    (s.usage r b).value.scope = b.scope := by
  cases s with
  | letVar => cases h
  | assign | ret | breakLoop | continueLoop | expr => rfl
  | ifElse _ _ thenBlock elseBlock =>
    exact (Block.usage?_scope r _ elseBlock).trans (thenBlock.usage_scope r b)
  | whileLoop _ _ body => exact body.usage_scope r b
  | forEach _ var iterable body =>
    rw [Stmt.usage]
    have hbody := body.usage_scope r (b.push.declare var)
    exact Scope.pop_eq_of_outer ((congrArg Scope.outer hbody).trans rfl)
  | switch _ _ cases => exact SwitchCase.usageList_scope r cases b
  | block body => exact body.usage_scope r b

/-- What a name refers to after a statement. -/
theorem Stmt.lookup?_usage (r : Option Registry) (b : Bindings) (s : Stmt) (name : String) :
    (s.usage r b).value.lookup? name =
      if name ∈ s.declares then some b.next else b.lookup? name := by
  by_cases hs : s.declares = []
  · rw [Bindings.lookup?, s.usage_scope r b hs, hs]
    rfl
  · cases s with
    | letVar _ var =>
      rw [Stmt.usage]
      exact (b.lookup?_declare var name).trans (by simp [Stmt.declares])
    | _ => exact absurd rfl hs

/-! ## The report on a function -/

namespace FunctionDecl

/-- The signature declares the object of the method, if there is one, and then the parameters. -/
theorem signatureBindings_eq (f : FunctionDecl) :
    f.signatureBindings = (f.signatureVars.map (·.1)).foldl Bindings.declare .empty := by
  rw [signatureBindings, List.foldl_map]

/-- How many variables come before the parameters. -/
def receiverCount (f : FunctionDecl) : Nat :=
  f.receiver.toList.length

/-- The object of a method is counted among its variables. -/
theorem length_receiverVars (f : FunctionDecl) :
    (f.receiver.map fun recv => (receiverName, recv.ty)).toList.length = f.receiverCount := by
  rw [receiverCount]
  cases f.receiver <;> rfl

/-- A parameter is the variable at its position behind the object of the method. -/
theorem signatureVars_getElem? (f : FunctionDecl) (i : Nat) :
    f.signatureVars[f.receiverCount + i]? = f.params[i]?.map fun p => (p.name, p.ty) := by
  rw [signatureVars, ← length_receiverVars, List.getElem?_append_right (Nat.le_add_right _ _),
    Nat.add_sub_cancel_left, List.getElem?_map]

/-- The names of the signature behind the receiver are those of the parameters. -/
theorem drop_signatureNames (f : FunctionDecl) (i : Nat) :
    (f.signatureVars.map (·.1)).drop (f.receiverCount + i) = (f.params.drop i).map (·.name) := by
  rw [← List.map_drop, signatureVars, ← length_receiverVars, ← List.drop_drop, List.drop_left,
    ← List.map_drop, List.map_map]
  rfl

/-- The name of a parameter is at its position behind the object of the method. -/
theorem signatureNames_getElem? {f : FunctionDecl} {i : Nat} {p : Param}
    (h : f.params[i]? = some p) :
    (f.signatureVars.map (·.1))[f.receiverCount + i]? = some p.name := by
  rw [List.getElem?_map, signatureVars_getElem?, h]
  rfl

/-- The bindings of a signature are numbered in its order. -/
theorem signatureBindings_walks (f : FunctionDecl) :
    f.signatureBindings.declared = f.signatureVars.map (·.1) ∧ f.signatureBindings.Numbered := by
  suffices h : ∀ (vars : List (String × Ty)) (b : Bindings), b.Numbered →
      (vars.foldl (fun b v => b.declare v.1) b).declared = b.declared ++ vars.map (·.1) ∧
        (vars.foldl (fun b v => b.declare v.1) b).Numbered by
    simpa [signatureBindings, Bindings.empty] using h f.signatureVars .empty Bindings.numbered_empty
  intro vars
  induction vars with
  | nil => intro b hb; exact ⟨by simp, hb⟩
  | cons v vars ih =>
    intro b hb
    obtain ⟨hd, hn⟩ := ih (b.declare v.1) (hb.declare v.1)
    exact ⟨by simpa using hd, hn⟩

/-- The variables of a function are those of its signature and then those of its body. -/
theorem declaredVars_usageEvents (r : Option Registry) (f : FunctionDecl) :
    declaredVars (f.usageEvents r) = (f.signatureVars.map fun v => (v.1, v.2, true)) ++
      declaredVars (Stmt.usageList r f.signatureBindings f.body.stmts).trace := by
  have hsig : ∀ vars : List (String × Ty),
      declaredVars (vars.map fun v => .declare v.1 v.2 true) = vars.map fun v => (v.1, v.2, true) := by
    intro vars
    induction vars with
    | nil => rfl
    | cons v vars ih => simp only [List.map_cons, declaredVars, ih]
  rw [usageEvents, declaredVars_append, hsig]

/-- The variables that a report lists are those the walk numbers, in order. -/
theorem map_name_usage (copy : CopySet) (f : FunctionDecl) :
    (f.usage copy).bindings.map (·.name) =
      (Stmt.usageList copy.registry f.signatureBindings f.body.stmts).value.declared := by
  have hnames : (f.usage copy).bindings.map (·.name) =
      (declaredVars (f.usageEvents copy.registry)).map (·.1) := by
    simp only [usage, UsageReport.ofBindings, List.map_map]
    refine List.ext_getElem? fun id => ?_
    simp only [List.getElem?_map, List.getElem?_zipIdx, Option.map_map]
    rfl
  rw [hnames, declaredVars_usageEvents,
    (Stmt.usageList_walks copy.registry f.body.stmts f.signatureBindings).declared,
    f.signatureBindings_walks.1]
  simp

/-- A report counts the reads of a variable over the whole walk. -/
theorem reads_of_usage {copy : CopySet} {f : FunctionDecl} {id : BindingId} {u : VarUsage}
    (h : (f.usage copy).bindings[id]? = some u) :
    u.reads = (readsIn (f.usageEvents copy.registry)).countP (·.1 == id) := by
  simp only [usage, UsageReport.ofBindings, List.getElem?_map, List.getElem?_zipIdx,
    Option.map_map, Option.map_eq_some_iff] at h
  obtain ⟨v, -, rfl⟩ := h
  rw [← countP_isReadOf]
  simp [VarUsage.ofEvents]

/-- The signature reads no variable. -/
@[simp] theorem readsIn_usageEvents (r : Option Registry) (f : FunctionDecl) :
    readsIn (f.usageEvents r) =
      readsIn (Stmt.usageList r f.signatureBindings f.body.stmts).trace := by
  have hsig : ∀ vars : List (String × Ty),
      readsIn (vars.map fun v => .declare v.1 v.2 true) = [] := by
    intro vars
    induction vars with
    | nil => rfl
    | cons v vars ih => exact ih
  rw [usageEvents, readsIn_append, hsig, List.nil_append]

end FunctionDecl

end Oxidize
