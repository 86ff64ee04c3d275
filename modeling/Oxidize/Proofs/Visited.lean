import Oxidize.Proofs.Emit.Reads

/-!
# The expressions that passes come to

Type resolution, the usage walk and emission go into the parts of an expression, with two
exceptions: the object of a call on a namespace, and that of a constant of one. `Expr.visited` lists
the expressions they come to. These include every method call, unless it stands in the object of a
call that is tagged with a namespace (`Expr.visited_calls`), and the variables among them are those
that the usage walk reads (`Expr.usage_accessed`).
-/

namespace Oxidize

mutual

/-- An expression and the expressions inside it that passes come to, given the local variables: they
do not look into the object of a call or a constant of a namespace. -/
def Expr.visited (isLocal : String → Bool) : Expr → List Expr
  | ⟨span, kind, ty⟩ => ⟨span, kind, ty⟩ :: kind.visited isLocal

/-- The expressions inside an expression of the given kind that passes come to. -/
def ExprKind.visited (isLocal : String → Bool) : ExprKind → List Expr
  | .literal _ | .ident _ => []
  | .unary _ expr | .cast expr _ => expr.visited isLocal
  | .binary _ left right => left.visited isLocal ++ right.visited isLocal
  | .call _ args => Expr.visitedList isLocal args
  | .methodCall object _ ns args _ =>
    match namespaceOf? ns object isLocal with
    | some _ => Expr.visitedList isLocal args
    | none => object.visited isLocal ++ Expr.visitedList isLocal args
  | .index object index => object.visited isLocal ++ index.visited isLocal
  | .field object field _ =>
    match namespaceConstant? object field isLocal with
    | some _ => []
    | none => object.visited isLocal
  | .array items | .tuple items => Expr.visitedList isLocal items
  | .aggregate _ fields => FieldInit.visitedList isLocal fields
  | .variant _ _ none => []
  | .variant _ _ (some data) => Expr.visitedList isLocal data
  | .ternary cond thenExpr elseExpr =>
    cond.visited isLocal ++ (thenExpr.visited isLocal ++ elseExpr.visited isLocal)

/-- The expressions inside a list of expressions that passes come to, the members included. -/
def Expr.visitedList (isLocal : String → Bool) : List Expr → List Expr
  | [] => []
  | e :: es => e.visited isLocal ++ Expr.visitedList isLocal es

/-- The expressions inside the fields of an aggregate literal that passes come to. -/
def FieldInit.visitedList (isLocal : String → Bool) : List FieldInit → List Expr
  | [] => []
  | ⟨_, value⟩ :: fields => value.visited isLocal ++ FieldInit.visitedList isLocal fields

end

/-- A method call. -/
def Expr.isMethodCall (e : Expr) : Bool :=
  match e.kind with
  | .methodCall _ _ _ _ _ => true
  | _ => false

/-- The expressions inside the object of a call that is tagged with a namespace. -/
def Expr.untouched (e : Expr) : List Expr :=
  match e.kind with
  | .methodCall object _ (some tag) _ _ =>
    (Namespace.ofIdent? tag).elim [] fun _ => object.nodes
  | _ => []

/-- Every method call among the nodes is visited, or stands in the object of a visited call that is
tagged with a namespace. -/
def CallsAmong (visited nodes : List Expr) : Prop :=
  ∀ n ∈ nodes, n.isMethodCall = true → ∃ v ∈ visited, n = v ∨ n ∈ v.untouched

namespace CallsAmong

variable {a b c d : List Expr}

/-- Without nodes there is no call to visit. -/
theorem nil : CallsAmong a [] :=
  List.forall_mem_nil _

/-- Calls that are visited are so among more. -/
theorem mono (h : CallsAmong a c) (hab : a ⊆ b) : CallsAmong b c := by
  intro n hn hcall
  obtain ⟨v, hv, hnv⟩ := h n hn hcall
  exact ⟨v, hab hv, hnv⟩

/-- The calls of two parts are visited among those of both. -/
theorem append (h : CallsAmong a c) (h' : CallsAmong b d) : CallsAmong (a ++ b) (c ++ d) :=
  List.forall_mem_append.2
    ⟨h.mono (List.subset_append_left a b), h'.mono (List.subset_append_right a b)⟩

/-- An expression is visited itself. -/
theorem cons (e : Expr) (h : CallsAmong a c) : CallsAmong (e :: a) (e :: c) :=
  List.forall_mem_cons.2
    ⟨fun _ => ⟨e, .head _, .inl rfl⟩, h.mono (List.subset_cons_self e a)⟩

/-- There is no call in a name. -/
theorem ident (span : Span) (name : String) (ty : Option Ty) :
    CallsAmong a (Expr.nodes ⟨span, .ident name, ty⟩) :=
  List.forall_mem_singleton.2 fun hcall => nomatch hcall

end CallsAmong

/-- Without a tag, only a name addresses a namespace. -/
theorem ident_of_namespaceOf? {object : Expr} {isLocal : String → Bool} {ns : Namespace}
    (h : namespaceOf? none object isLocal = some ns) :
    ∃ span name ty, object = ⟨span, .ident name, ty⟩ := by
  obtain ⟨span, kind, ty⟩ := object
  cases kind with
  | ident name => exact ⟨span, name, ty, rfl⟩
  | _ => cases h

/-! ## Method calls among the expressions -/

section
variable (isLocal : String → Bool)

mutual

/-- Passes come to every method call in an expression, except in the objects of calls on
namespaces. -/
theorem Expr.visited_calls : (e : Expr) → CallsAmong (e.visited isLocal) e.nodes
  | ⟨span, .methodCall object method ns args objectTy, ty⟩ => by
    have hargs := Expr.visitedList_calls args
    rw [Expr.visited, Expr.nodes, ExprKind.visited, ExprKind.nodes]
    cases hns : namespaceOf? ns object isLocal with
    | none => exact .cons _ (object.visited_calls.append hargs)
    | some n =>
      refine List.forall_mem_cons.2 ⟨fun _ => ⟨_, .head _, .inl rfl⟩,
        List.forall_mem_append.2 ⟨?_, hargs.mono (List.subset_cons_self _ _)⟩⟩
      cases ns with
      | some tag =>
        have htag : Namespace.ofIdent? tag = some n := hns
        exact fun m hm _ => ⟨_, .head _, .inr (by simpa [Expr.untouched, htag] using hm)⟩
      | none =>
        obtain ⟨span, name, ty, rfl⟩ := ident_of_namespaceOf? hns
        exact CallsAmong.ident span name ty
  | ⟨span, .field object field objectTy, ty⟩ => by
    rw [Expr.visited, Expr.nodes, ExprKind.visited, ExprKind.nodes]
    cases hc : namespaceConstant? object field isLocal with
    | none => exact .cons _ object.visited_calls
    | some c =>
      obtain ⟨ns, hns, -⟩ := Option.bind_eq_some_iff.1 hc
      obtain ⟨span, name, ty, rfl⟩ := ident_of_namespaceOf? hns
      exact .cons _ (.ident span name ty)
  | ⟨span, .literal value, ty⟩ | ⟨span, .ident name, ty⟩ | ⟨span, .variant _ _ none, ty⟩ => by
    rw [Expr.visited, Expr.nodes]
    exact .cons _ .nil
  | ⟨span, .unary _ expr, ty⟩ | ⟨span, .cast expr _, ty⟩ => by
    rw [Expr.visited, Expr.nodes]
    exact .cons _ expr.visited_calls
  | ⟨span, .binary _ left right, ty⟩ | ⟨span, .index left right, ty⟩ => by
    rw [Expr.visited, Expr.nodes]
    exact .cons _ (left.visited_calls.append right.visited_calls)
  | ⟨span, .call _ items, ty⟩ | ⟨span, .array items, ty⟩ | ⟨span, .tuple items, ty⟩
  | ⟨span, .variant _ _ (some items), ty⟩ => by
    rw [Expr.visited, Expr.nodes]
    exact .cons _ (Expr.visitedList_calls items)
  | ⟨span, .aggregate _ fields, ty⟩ => by
    rw [Expr.visited, Expr.nodes]
    exact .cons _ (FieldInit.visitedList_calls fields)
  | ⟨span, .ternary cond thenExpr elseExpr, ty⟩ => by
    rw [Expr.visited, Expr.nodes]
    exact .cons _ (cond.visited_calls.append
      (thenExpr.visited_calls.append elseExpr.visited_calls))

/-- The calls in expressions are visited. -/
theorem Expr.visitedList_calls :
    (es : List Expr) → CallsAmong (Expr.visitedList isLocal es) (Expr.nodesList es)
  | [] => .nil
  | e :: es => e.visited_calls.append (Expr.visitedList_calls es)

/-- The calls in the values of fields are visited. -/
theorem FieldInit.visitedList_calls :
    (fields : List FieldInit) →
      CallsAmong (FieldInit.visitedList isLocal fields) (FieldInit.nodesList fields)
  | [] => .nil
  | ⟨_, value⟩ :: fields => value.visited_calls.append (FieldInit.visitedList_calls fields)

end

end

/-! ## Variables among the expressions -/

/-- The variable that an event reads or writes. -/
def UsageEvent.accessed? : UsageEvent → Option BindingId
  | .read id _ | .write id => some id
  | _ => none

/-- The variables that events read or write, in order. -/
def accessedIn (events : List UsageEvent) : List BindingId :=
  events.filterMap UsageEvent.accessed?

/-- Without events no variable is accessed. -/
@[simp] theorem accessedIn_nil : accessedIn [] = [] := rfl

/-- The variables that events in a row access are those of both parts. -/
@[simp] theorem accessedIn_append (a b : List UsageEvent) :
    accessedIn (a ++ b) = accessedIn a ++ accessedIn b :=
  List.filterMap_append

/-- A change in place is no access of its own. -/
@[simp] theorem accessedIn_mutationEvents (b : Bindings) (place : Expr) :
    accessedIn (mutationEvents b place) = [] := by
  unfold mutationEvents
  split <;> rfl

/-- The reads are among what is read or written. -/
theorem readsIn_sublist_accessedIn (events : List UsageEvent) :
    ((readsIn events).map (·.1)).Sublist (accessedIn events) := by
  induction events with
  | nil => exact .slnil
  | cons event events ih =>
    cases event with
    | read id pos => exact ih.cons_cons id
    | write id => exact ih.cons id
    | declare | mutate => exact ih

/-- The variable that an expression is. -/
def Expr.boundId? (b : Bindings) (e : Expr) : Option BindingId :=
  e.ident?.bind b.lookup?

/-- Two passes take the same names for variables, the name of a receiver apart. -/
def SameLocals (isLocal isLocal' : String → Bool) : Prop :=
  ∀ name, name ≠ receiverName → isLocal name = isLocal' name

/-- The name of a receiver is no namespace, so passes with the same variables find the same
namespaces. -/
theorem namespaceOf?_congr {isLocal isLocal' : String → Bool} (h : SameLocals isLocal isLocal')
    (tag : Option String) (object : Expr) :
    namespaceOf? tag object isLocal = namespaceOf? tag object isLocal' := by
  cases tag with
  | some tag => rfl
  | none =>
    unfold namespaceOf?
    cases object.ident? with
    | none => rfl
    | some name =>
      by_cases hname : name = receiverName
      · have hthis : Namespace.ofIdent? receiverName = none := by decide
        simp [hname, hthis]
      · simp [h name hname]

/-- Passes that take the same names for variables find the same constants of namespaces. -/
theorem namespaceConstant?_congr {isLocal isLocal' : String → Bool}
    (h : SameLocals isLocal isLocal') (object : Expr) (field : String) :
    namespaceConstant? object field isLocal = namespaceConstant? object field isLocal' := by
  rw [namespaceConstant?, namespaceConstant?, namespaceOf?_congr h]

section
variable {isLocal : String → Bool} {b : Bindings}

mutual

/-- The variables that evaluating an expression reads are those among the visited expressions. -/
theorem Expr.usage_accessed (r : Option Registry) (h : SameLocals isLocal b.isLocal) :
    (e : Expr) → (pos : ReadPosition) →
      accessedIn (e.usage r b pos) = (e.visited isLocal).filterMap (·.boundId? b)
  | ⟨span, .ident name, ty⟩, pos => by
    rw [Expr.usage, Expr.visited, ExprKind.visited, readEvents, List.filterMap_cons,
      List.filterMap_nil, Expr.boundId?]
    simp only [Expr.ident?, Option.bind_some]
    cases b.lookup? name <;> rfl
  | ⟨span, .methodCall object method ns args objectTy, ty⟩, pos => by
    have hargs := Expr.usageList_accessed r h args
    rw [Expr.usage, Expr.visited, ExprKind.visited, namespaceOf?_congr h]
    cases namespaceOf? ns object b.isLocal with
    | some n => exact hargs _
    | none =>
      -- a change in place is no access of its own
      dsimp only
      rw [accessedIn_append, accessedIn_append, object.usage_accessed r h, hargs]
      split <;> simp [Expr.boundId?, Expr.ident?]
  | ⟨span, .field object field objectTy, ty⟩, pos => by
    rw [Expr.usage, Expr.visited, ExprKind.visited, namespaceConstant?_congr h]
    cases hc : namespaceConstant? object field b.isLocal with
    | some c => rw [object.usage_of_namespaceConstant hc]; rfl
    | none => exact object.usage_accessed r h .borrow
  | ⟨span, .literal value, ty⟩, _ | ⟨span, .variant _ _ none, ty⟩, _ => rfl
  | ⟨span, .unary _ expr, ty⟩, _ | ⟨span, .cast expr _, ty⟩, _ => by
    rw [Expr.usage, Expr.visited]
    exact expr.usage_accessed r h .value
  | ⟨span, .binary op left right, ty⟩, _ => by
    rw [Expr.usage, accessedIn_append, left.usage_accessed r h, right.usage_accessed r h,
      ← List.filterMap_append]
    rfl
  | ⟨span, .index object index, ty⟩, _ => by
    rw [Expr.usage, accessedIn_append, object.usage_accessed r h, index.usage_accessed r h,
      ← List.filterMap_append]
    rfl
  | ⟨span, .call _ items, ty⟩, _ | ⟨span, .array items, ty⟩, _ | ⟨span, .tuple items, ty⟩, _
  | ⟨span, .variant _ _ (some items), ty⟩, _ => by
    rw [Expr.usage, Expr.visited]
    exact Expr.usageList_accessed r h items .value
  | ⟨span, .aggregate _ fields, ty⟩, _ => by
    rw [Expr.usage, Expr.visited]
    exact FieldInit.usageList_accessed r h fields
  | ⟨span, .ternary cond thenExpr elseExpr, ty⟩, pos => by
    rw [Expr.usage, accessedIn_append, accessedIn_append, cond.usage_accessed r h,
      thenExpr.usage_accessed r h, elseExpr.usage_accessed r h, ← List.filterMap_append,
      ← List.filterMap_append]
    rfl

/-- The walk over expressions accesses the variables that are visited. -/
theorem Expr.usageList_accessed (r : Option Registry) (h : SameLocals isLocal b.isLocal) :
    (es : List Expr) → (pos : ReadPosition) →
      accessedIn (Expr.usageList r b pos es) =
        (Expr.visitedList isLocal es).filterMap (·.boundId? b)
  | [], _ => rfl
  | e :: es, pos => by
    rw [Expr.usageList, Expr.visitedList, accessedIn_append, List.filterMap_append,
      e.usage_accessed r h, Expr.usageList_accessed r h es]

/-- The walk over fields accesses the variables that are visited in their values. -/
theorem FieldInit.usageList_accessed (r : Option Registry) (h : SameLocals isLocal b.isLocal) :
    (fields : List FieldInit) →
      accessedIn (FieldInit.usageList r b fields) =
        (FieldInit.visitedList isLocal fields).filterMap (·.boundId? b)
  | [] => rfl
  | ⟨_, value⟩ :: fields => by
    rw [FieldInit.usageList, FieldInit.visitedList, accessedIn_append, List.filterMap_append,
      value.usage_accessed r h, FieldInit.usageList_accessed r h fields]

end

end

end Oxidize
