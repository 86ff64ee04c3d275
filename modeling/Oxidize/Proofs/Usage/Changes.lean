import Oxidize.Proofs.Places

/-!
# Where a variable is changed

`Stmt.changesList` says whether statements change the variable that a name refers to in front of
them: they assign to it or to a part of it, or call a method on it or on a part of it that changes
its receiver. It goes by the text alone and stops where the name is declared anew.

The usage analysis decides the same by number. `Bindings.Shows` gives the name under which a number
is visible, and `Stmt.changesAsList` says that the walk changes the variable with that number exactly
if the text changes the variable with that name.
-/

namespace Oxidize

/-! ## Changes in the text -/

/-- Whether a method changes a receiver of the given type: a builtin by its rule, and any other by the
receiver that it is declared with. -/
def Registry.mutates (r : Registry) (recv : Option Ty) (method : String) : Bool :=
  match Dispatch.onValue? recv method with
  | some d => d.rule.mutatesReceiver
  | none => (recv.bind (r.methodOf? · method)).any (·.receiver == some .byMut)

/-- Whether the expression is a call, on a place with the variable at its root, of a method that
changes its receiver. -/
def Expr.mutates (r : Registry) (name : String) (e : Expr) : Bool :=
  match e.kind with
  | .methodCall object method ns _ objectTy =>
    (ns.bind Namespace.ofIdent?).isNone && object.root? == some name &&
      r.mutates (objectTy? r objectTy object) method
  | _ => false

/-- The expressions inside an expression outside the objects of calls that are tagged with a
namespace: those objects are never evaluated. -/
def Expr.evaluated (e : Expr) : List Expr :=
  e.visited fun _ => true

/-- Whether evaluating the expression changes the variable. -/
def Expr.changes (r : Registry) (name : String) (e : Expr) : Bool :=
  e.evaluated.any (·.mutates r name)

/-- Whether evaluating the optional expression changes the variable. -/
def Expr.changes? (r : Registry) (name : String) (e : Option Expr) : Bool :=
  e.any (·.changes r name)

mutual

/-- Whether the statement changes the variable that the name refers to in front of it. -/
def Stmt.changes (r : Registry) (name : String) : Stmt → Bool
  | .letVar _ _ _ _ init => Expr.changes? r name init
  | .assign _ target value =>
    target.root? == some name || target.changes r name || value.changes r name
  | .ret _ value => Expr.changes? r name value
  | .ifElse _ cond thenBlock elseBlock =>
    cond.changes r name || thenBlock.changes r name || Block.changes? r name elseBlock
  | .whileLoop _ cond body => cond.changes r name || body.changes r name
  | .forEach _ var iterable body =>
    iterable.changes r name || (var != name && body.changes r name)
  | .switch _ scrutinee cases => scrutinee.changes r name || SwitchCase.changesList r name cases
  | .breakLoop _ | .continueLoop _ => false
  | .expr e => e.changes r name
  | .block body => body.changes r name

/-- Whether statements change the variable that the name refers to in front of them. Behind a
declaration of the name it refers to another one. -/
def Stmt.changesList (r : Registry) (name : String) : List Stmt → Bool
  | [] => false
  | s :: ss => s.changes r name || (!s.declares.contains name && Stmt.changesList r name ss)

/-- Whether the block changes the variable. -/
def Block.changes (r : Registry) (name : String) : Block → Bool
  | ⟨_, stmts⟩ => Stmt.changesList r name stmts

/-- Whether the optional block changes the variable. -/
def Block.changes? (r : Registry) (name : String) : Option Block → Bool
  | none => false
  | some body => body.changes r name

/-- Whether the cases of a switch change the variable. -/
def SwitchCase.changesList (r : Registry) (name : String) : List SwitchCase → Bool
  | [] => false
  | ⟨_, value, body, _⟩ :: cases =>
    Expr.changes? r name value || Stmt.changesList r name body ||
      SwitchCase.changesList r name cases

end

/-- A block changes what its statements change. -/
theorem Block.changes_eq (r : Registry) (name : String) (body : Block) :
    body.changes r name = Stmt.changesList r name body.stmts := by
  cases body
  rw [Block.changes]

/-! ## Changes in the walk -/

/-- Whether a variable is assigned to or changed in place. -/
def changedIn (events : List UsageEvent) (id : BindingId) : Bool :=
  events.any fun event => event.isWriteOf id || event.isMutationOf id

/-- Without events nothing changes. -/
@[simp] theorem changedIn_nil (id : BindingId) : changedIn [] id = false := rfl

/-- Events in a row change what one of them does. -/
@[simp] theorem changedIn_append (a b : List UsageEvent) (id : BindingId) :
    changedIn (a ++ b) id = (changedIn a id || changedIn b id) :=
  List.any_append

/-- The name under which a variable is visible, if it is. -/
def Bindings.Shows (b : Bindings) (id : BindingId) (vis : Option String) : Prop :=
  ∀ name, b.lookup? name = some id ↔ vis = some name

namespace Bindings.Shows

variable {b c : Bindings} {id : BindingId} {vis : Option String}

/-- Bindings with the same variables in scope show them under the same names. -/
theorem of_scope (h : b.Shows id vis) (hc : c.scope = b.scope) : c.Shows id vis := by
  intro name
  rw [lookup?, hc]
  exact h name

/-- A later declaration of the same name hides a variable. -/
theorem declare (h : b.Shows id vis) (hid : id < b.next) (name : String) :
    (b.declare name).Shows id (vis.filter (name != ·)) := by
  intro other
  rw [lookup?_declare]
  by_cases hother : other = name
  · simp [hother, Option.filter_eq_some_iff, Nat.ne_of_gt hid]
  · simp [hother, Option.filter_eq_some_iff, h other, Ne.symm hother]

/-- A variable is visible behind its declaration. -/
theorem declare_self (hb : b.Numbered) (name : String) :
    (b.declare name).Shows b.next (some name) := by
  intro other
  rw [lookup?_declare]
  by_cases hother : other = name
  · simp [hother]
  · have hne : b.lookup? other ≠ some b.next := fun h => Nat.lt_irrefl _ (hb.lookup_lt h)
    simp [hother, hne, Ne.symm hother]

/-- Of several later declarations, those of the same name hide a variable. -/
theorem declareAll (h : b.Shows id vis) (hid : id < b.next) (names : List String) :
    (names.foldl Bindings.declare b).Shows id (vis.filter (!names.contains ·)) := by
  induction names generalizing b vis with
  | nil =>
    intro other
    rw [Option.filter_eq_some_iff]
    simpa using h other
  | cons name names ih =>
    have hrest := ih (h.declare hid name) (by rw [next_declare]; exact Nat.lt_succ_of_lt hid)
    intro other
    rw [List.foldl_cons, hrest other]
    simp only [Option.filter_eq_some_iff, List.contains_cons, Bool.not_or, Bool.and_eq_true,
      and_assoc, bne_iff_ne, Bool.not_eq_true', beq_eq_false_iff_ne, ne_comm]

/-- Of several variables one is visible, unless a later one has its name. -/
theorem declareAll_getElem {names : List String} {i : Nat} {name : String} (hb : b.Numbered)
    (hi : names[i]? = some name) :
    (names.foldl Bindings.declare b).Shows (b.next + i)
      ((some name).filter (!(names.drop (i + 1)).contains ·)) := by
  induction names generalizing b i with
  | nil => cases hi
  | cons first names ih =>
    cases i with
    | zero =>
      cases hi
      exact (declare_self hb name).declareAll (by rw [next_declare]; exact Nat.lt_succ_self _) names
    | succ i =>
      have hrest := ih (hb.declare first) hi
      rw [next_declare, Nat.add_assoc, Nat.add_comm 1] at hrest
      exact hrest

/-- A variable is not visible before its declaration. -/
theorem none_of_le (hb : b.Numbered) (hid : b.next ≤ id) : b.Shows id none := by
  intro name
  simpa using fun h => Nat.not_lt_of_le hid (hb.lookup_lt h)

end Bindings.Shows

/-- Whether one of the expressions is a call that changes the variable visible under the name. -/
def mutatedIn (r : Registry) (vis : Option String) (nodes : List Expr) : Bool :=
  vis.any fun name => nodes.any (·.mutates r name)

section
variable (r : Registry) (vis : Option String)

/-- Without nodes nothing changes. -/
@[simp] theorem mutatedIn_nil : mutatedIn r vis [] = false := by
  cases vis <;> rfl

/-- Nodes in a row change what one of them does. -/
@[simp] theorem mutatedIn_append (a b : List Expr) :
    mutatedIn r vis (a ++ b) = (mutatedIn r vis a || mutatedIn r vis b) := by
  cases vis <;> simp [mutatedIn]

/-- The first node changes the variable, or a later one does. -/
theorem mutatedIn_cons (e : Expr) (nodes : List Expr) :
    mutatedIn r vis (e :: nodes) = (vis.any (e.mutates r ·) || mutatedIn r vis nodes) := by
  cases vis <;> simp [mutatedIn]

/-- Only a call changes a variable by itself. -/
theorem mutatedIn_evaluated {span : Span} {kind : ExprKind} {ty : Option Ty}
    (h : (Expr.mk span kind ty).isMethodCall = false) :
    mutatedIn r vis (Expr.evaluated ⟨span, kind, ty⟩) =
      mutatedIn r vis (kind.visited fun _ => true) := by
  have hnone : ∀ name, Expr.mutates r name ⟨span, kind, ty⟩ = false := by
    intro name
    cases kind with
    | methodCall => cases h
    | _ => rfl
  rw [Expr.evaluated, Expr.visited, mutatedIn_cons]
  cases vis <;> simp [hnone]

/-- Reading a variable does not change it. -/
theorem mutatedIn_ident (span : Span) (name : String) (ty : Option Ty) :
    mutatedIn r vis (Expr.evaluated ⟨span, .ident name, ty⟩) = false := by
  rw [mutatedIn_evaluated r vis rfl, ExprKind.visited, mutatedIn_nil]

end

/-- The usage walk and emission agree on whether the call changes its receiver: the one goes by the
recorded type of the receiver and the other by that type expanded once more. -/
def Expr.JudgedAlike (r : Registry) (e : Expr) : Prop :=
  ∀ object method ns args objectTy, e.kind = .methodCall object method ns args objectTy →
    ns.bind Namespace.ofIdent? = none →
      methodMutates (some r) (objectTy <|> object.ty) method =
        r.mutates (objectTy? r objectTy object) method

/-- The walk and emission agree on all the calls. -/
def AllJudgedAlike (r : Registry) (nodes : List Expr) : Prop :=
  ∀ n ∈ nodes, n.JudgedAlike r

namespace AllJudgedAlike

variable {r : Registry} {a b : List Expr} {e : Expr}

/-- The first node is judged alike. -/
theorem head (h : AllJudgedAlike r (e :: a)) : e.JudgedAlike r :=
  h e (.head _)

/-- The nodes behind the first one are judged alike. -/
theorem tail (h : AllJudgedAlike r (e :: a)) : AllJudgedAlike r a :=
  (List.forall_mem_cons.1 h).2

/-- The first nodes are judged alike. -/
theorem left (h : AllJudgedAlike r (a ++ b)) : AllJudgedAlike r a :=
  (List.forall_mem_append.1 h).1

/-- The last nodes are judged alike. -/
theorem right (h : AllJudgedAlike r (a ++ b)) : AllJudgedAlike r b :=
  (List.forall_mem_append.1 h).2

end AllJudgedAlike

section
variable {r : Registry} {b : Bindings} {id : BindingId} {vis : Option String}

/-- Reading a variable does not change it. -/
theorem changedIn_readEvents (name : String) (pos : ReadPosition) :
    changedIn (readEvents b name pos) id = false := by
  unfold readEvents
  split <;> rfl

/-- A name is the one that the variable is visible under exactly if it refers to the variable. -/
theorem Bindings.Shows.any_beq (h : b.Shows id vis) (name : String) :
    vis.any (some name == some ·) = (b.lookup? name == some id) := by
  rw [Bool.eq_iff_iff, beq_iff_eq, h name]
  cases vis with
  | none => simp
  | some other => simpa using eq_comm

/-- A place changes the variable that it starts with. -/
theorem changedIn_mutationEvents (h : b.Shows id vis) (place : Expr) :
    changedIn (mutationEvents b place) id = vis.any (place.root? == some ·) := by
  unfold mutationEvents
  cases place.root? with
  | none => cases vis <;> rfl
  | some name =>
    rw [Option.bind_some, h.any_beq]
    cases b.lookup? name with
    | none => rfl
    | some found => simp [changedIn, UsageEvent.isWriteOf, UsageEvent.isMutationOf]

/-- Of a call, the walk sees whether it changes the variable at the root of its receiver. -/
theorem changedIn_call (h : b.Shows id vis) {span : Span} {object : Expr} {method : String}
    {ns : Option String} {args : List Expr} {objectTy ty : Option Ty}
    (hns : ns.bind Namespace.ofIdent? = none)
    (hj : Expr.JudgedAlike r ⟨span, .methodCall object method ns args objectTy, ty⟩) :
    changedIn (if methodMutates (some r) (objectTy <|> object.ty) method
        then mutationEvents b object else []) id =
      vis.any (Expr.mutates r · ⟨span, .methodCall object method ns args objectTy, ty⟩) := by
  rw [hj _ _ _ _ _ rfl hns]
  cases hmut : r.mutates (objectTy? r objectTy object) method with
  | true =>
    rw [if_pos rfl, changedIn_mutationEvents h]
    simp [Expr.mutates, hns, hmut]
  | false => cases vis <;> simp [Expr.mutates, hmut]

/-- A call of a namespace changes no variable: where its receiver is a name, that name is no
variable. -/
theorem any_mutates_of_namespace (h : b.Shows id vis) {span : Span} {object : Expr}
    {method : String} {ns : Option String} {args : List Expr} {objectTy ty : Option Ty}
    {n : Namespace} (hns : namespaceOf? ns object b.isLocal = some n) :
    vis.any (Expr.mutates r · ⟨span, .methodCall object method ns args objectTy, ty⟩) = false := by
  cases ns with
  | some tag =>
    have htag : Namespace.ofIdent? tag = some n := hns
    cases vis <;> simp [Expr.mutates, htag]
  | none =>
    obtain ⟨span', name, ty', rfl⟩ := ident_of_namespaceOf? hns
    have hlocal : b.isLocal name = false := by
      cases hl : b.isLocal name with
      | false => rfl
      | true => simp [namespaceOf?, Expr.ident?, hl] at hns
    cases vis with
    | none => rfl
    | some other =>
      have hother := (h other).2 rfl
      have hne : name ≠ other := by
        rintro rfl
        rw [Bindings.isLocal, Scope.isLocal] at hlocal
        rw [Bindings.lookup?] at hother
        simp [hother] at hlocal
      simp [Expr.mutates, Expr.root?, hne]

/-! ## Expressions -/

/-- An object that is no namespace is none either where every name is a variable. -/
theorem namespaceOf?_of_none {ns : Option String} {object : Expr} {isLocal : String → Bool}
    (h : namespaceOf? ns object isLocal = none) :
    ns.bind Namespace.ofIdent? = none ∧ namespaceOf? ns object (fun _ => true) = none := by
  cases ns with
  | some tag => exact ⟨h, h⟩
  | none =>
    refine ⟨rfl, ?_⟩
    unfold namespaceOf?
    cases object.ident? <;> rfl

/-- Where every name is a variable there is no constant of a namespace. -/
theorem namespaceConstant?_of_local (object : Expr) (field : String) :
    namespaceConstant? object field (fun _ => true) = none := by
  unfold namespaceConstant? namespaceOf?
  cases object.ident? <;> rfl

variable {isLocal : String → Bool}

mutual

/-- Evaluating an expression changes the variable with the given number exactly if it changes the
variable with the name that the former is visible under. -/
theorem Expr.changedIn_usage (hl : SameLocals isLocal b.isLocal) (h : b.Shows id vis) :
    (e : Expr) → (pos : ReadPosition) → AllJudgedAlike r (e.visited isLocal) →
      changedIn (e.usage (some r) b pos) id = mutatedIn r vis e.evaluated
  | ⟨span, .methodCall object method ns args objectTy, ty⟩, pos, hj => by
    rw [Expr.visited, ExprKind.visited, namespaceOf?_congr hl] at hj
    rw [Expr.usage, Expr.evaluated, Expr.visited, ExprKind.visited, mutatedIn_cons]
    cases hns : namespaceOf? ns object b.isLocal with
    | some n =>
      rw [hns] at hj
      rw [any_mutates_of_namespace h hns, Bool.false_or]
      dsimp only
      rw [Expr.changedIn_usageList hl h args _ hj.tail]
      cases ns with
      | some tag =>
        have htag : Namespace.ofIdent? tag = some n := hns
        rw [show namespaceOf? (some tag) object (fun _ => true) = some n from htag]
      | none =>
        obtain ⟨span', name, ty', rfl⟩ := ident_of_namespaceOf? hns
        exact ((mutatedIn_append ..).trans (congrArg (· || _) (mutatedIn_ident ..))).symm
    | none =>
      obtain ⟨htag, hall⟩ := namespaceOf?_of_none hns
      rw [hns] at hj
      rw [hall]
      dsimp only
      rw [changedIn_append, changedIn_append, mutatedIn_append, changedIn_call h htag hj.head,
        object.changedIn_usage hl h _ hj.tail.left, Expr.changedIn_usageList hl h args _ hj.tail.right]
      rfl
  | ⟨span, .field object field objectTy, ty⟩, pos, hj => by
    rw [Expr.visited, ExprKind.visited, namespaceConstant?_congr hl] at hj
    rw [Expr.usage, mutatedIn_evaluated _ _ rfl, ExprKind.visited]
    cases hc : namespaceConstant? object field b.isLocal with
    | some c =>
      obtain ⟨n, hns, -⟩ := Option.bind_eq_some_iff.1 hc
      obtain ⟨span', name, ty', rfl⟩ := ident_of_namespaceOf? hns
      rw [Expr.usage_of_namespaceConstant hc, namespaceConstant?_of_local]
      exact (mutatedIn_ident ..).symm
    | none =>
      rw [hc] at hj
      rw [namespaceConstant?_of_local]
      exact object.changedIn_usage hl h .borrow hj.tail
  | ⟨span, .literal _, ty⟩, _, _ | ⟨span, .variant _ _ none, ty⟩, _, _ => by
    rw [mutatedIn_evaluated _ _ rfl, ExprKind.visited, mutatedIn_nil]
    rfl
  | ⟨span, .ident name, ty⟩, pos, _ => by
    rw [mutatedIn_ident]
    exact changedIn_readEvents name pos
  | ⟨span, .unary _ expr, ty⟩, _, hj | ⟨span, .cast expr _, ty⟩, _, hj => by
    rw [mutatedIn_evaluated _ _ rfl]
    exact expr.changedIn_usage hl h .value hj.tail
  | ⟨span, .binary _ left right, ty⟩, _, hj | ⟨span, .index left right, ty⟩, _, hj => by
    rw [Expr.visited, ExprKind.visited] at hj
    rw [Expr.usage, mutatedIn_evaluated _ _ rfl, ExprKind.visited, changedIn_append,
      mutatedIn_append, left.changedIn_usage hl h _ hj.tail.left,
      right.changedIn_usage hl h _ hj.tail.right]
    rfl
  | ⟨span, .call _ items, ty⟩, _, hj | ⟨span, .array items, ty⟩, _, hj
  | ⟨span, .tuple items, ty⟩, _, hj | ⟨span, .variant _ _ (some items), ty⟩, _, hj => by
    rw [mutatedIn_evaluated _ _ rfl]
    exact Expr.changedIn_usageList hl h items .value hj.tail
  | ⟨span, .aggregate _ fields, ty⟩, _, hj => by
    rw [mutatedIn_evaluated _ _ rfl]
    exact FieldInit.changedIn_usageList hl h fields hj.tail
  | ⟨span, .ternary cond thenExpr elseExpr, ty⟩, pos, hj => by
    rw [Expr.visited, ExprKind.visited] at hj
    rw [Expr.usage, mutatedIn_evaluated _ _ rfl, ExprKind.visited, changedIn_append,
      changedIn_append, mutatedIn_append, mutatedIn_append,
      cond.changedIn_usage hl h _ hj.tail.left,
      thenExpr.changedIn_usage hl h _ hj.tail.right.left,
      elseExpr.changedIn_usage hl h _ hj.tail.right.right]
    rfl

/-- The events of expressions change what the expressions do. -/
theorem Expr.changedIn_usageList (hl : SameLocals isLocal b.isLocal) (h : b.Shows id vis) :
    (es : List Expr) → (pos : ReadPosition) → AllJudgedAlike r (Expr.visitedList isLocal es) →
      changedIn (Expr.usageList (some r) b pos es) id =
        mutatedIn r vis (Expr.visitedList (fun _ => true) es)
  | [], _, _ => by
    rw [Expr.visitedList, mutatedIn_nil]
    rfl
  | e :: es, pos, hj => by
    rw [Expr.visitedList] at hj
    rw [Expr.usageList, Expr.visitedList, changedIn_append, mutatedIn_append,
      e.changedIn_usage hl h pos hj.left, Expr.changedIn_usageList hl h es pos hj.right]
    rfl

/-- The events of fields change what their values do. -/
theorem FieldInit.changedIn_usageList (hl : SameLocals isLocal b.isLocal) (h : b.Shows id vis) :
    (fields : List FieldInit) → AllJudgedAlike r (FieldInit.visitedList isLocal fields) →
      changedIn (FieldInit.usageList (some r) b fields) id =
        mutatedIn r vis (FieldInit.visitedList (fun _ => true) fields)
  | [], _ => by
    rw [FieldInit.visitedList, mutatedIn_nil]
    rfl
  | ⟨_, value⟩ :: fields, hj => by
    rw [FieldInit.visitedList] at hj
    rw [FieldInit.usageList, FieldInit.visitedList, changedIn_append, mutatedIn_append,
      value.changedIn_usage hl h _ hj.left, FieldInit.changedIn_usageList hl h fields hj.right]
    rfl

end

/-- The events of an optional expression change what the expression does. -/
theorem Expr.changedIn_usage? (hl : SameLocals isLocal b.isLocal) (h : b.Shows id vis)
    (e : Option Expr) (pos : ReadPosition)
    (hj : ∀ e' ∈ e, AllJudgedAlike r (e'.visited isLocal)) :
    changedIn (Expr.usage? (some r) b pos e) id = vis.any (Expr.changes? r · e) := by
  cases e with
  | none => cases vis <;> rfl
  | some e => exact e.changedIn_usage hl h pos (hj e rfl)

/-- Assigning to a place changes the variable at its root. -/
theorem Expr.changedIn_placeUsage (hl : SameLocals isLocal b.isLocal) (h : b.Shows id vis)
    (target : Expr) (hj : AllJudgedAlike r (target.visited isLocal)) :
    changedIn (target.placeUsage (some r) b) id =
      vis.any fun name => target.root? == some name || target.changes r name := by
  have hor : (vis.any fun name => target.root? == some name || target.changes r name) =
      (vis.any (target.root? == some ·) || mutatedIn r vis target.evaluated) := by
    cases vis <;> rfl
  rw [hor, Expr.placeUsage]
  cases hi : target.ident? with
  | none =>
    dsimp only
    rw [changedIn_append, changedIn_mutationEvents h, target.changedIn_usage hl h .borrow hj]
  | some name =>
    obtain ⟨span, kind, ty⟩ := target
    cases kind with
    | ident name' =>
      cases hi
      rw [mutatedIn_ident, Bool.or_false, Expr.root?, h.any_beq]
      dsimp only
      cases b.lookup? name with
      | none => rfl
      | some found => simp [changedIn, UsageEvent.isWriteOf, UsageEvent.isMutationOf]
    | _ => cases hi

end

/-! ## Statements -/

/-- The walk and emission agree on the calls at all the places. -/
def JudgedAt (r : Registry) {α : Type} (out : Traced Place α) : Prop :=
  ∀ pl ∈ out.trace, pl.node.JudgedAlike r

namespace JudgedAt

variable {r : Registry} {α β : Type} {x : Traced Place α} {f : α → Traced Place β} {σ : Scopes}

/-- The first part is judged alike. -/
theorem first (h : JudgedAt r (x >>= f)) : JudgedAt r x :=
  (List.forall_mem_append.1 h).1

/-- The rest is judged alike. -/
theorem rest (h : JudgedAt r (x >>= f)) : JudgedAt r (f x.value) :=
  (List.forall_mem_append.1 h).2

/-- The nodes of an expression that is visited are judged alike. -/
theorem nodes {e : Expr} (h : JudgedAt r (σ.visit e)) :
    AllJudgedAlike r (e.visited σ.typed.isLocal) :=
  fun n hn => h ⟨σ, n⟩ (List.mem_map_of_mem hn)

/-- So are those of an optional expression. -/
theorem nodes? {e : Option Expr} (h : JudgedAt r (σ.visit? e)) :
    ∀ e' ∈ e, AllJudgedAlike r (e'.visited σ.typed.isLocal) := by
  rintro e' rfl
  exact nodes h

end JudgedAt

/-- The scopes of the passes agree, and the walk has numbered a variable that is visible under the
given name. -/
structure Scopes.Shows (σ : Scopes) (id : BindingId) (vis : Option String) : Prop where
  agree : σ.Agree
  given : id < σ.walked.next
  visible : σ.walked.Shows id vis

namespace Scopes.Shows

variable {σ : Scopes} {id : BindingId} {vis : Option String}

/-- Entering a block hides nothing. -/
theorem enter (h : σ.Shows id vis) (inline : Bool) : (σ.enter inline).Shows id vis :=
  ⟨h.agree.enter inline, h.given, h.visible⟩

/-- A later declaration of the same name hides a variable in both scopes. -/
theorem declare (h : σ.Shows id vis) (name : String) (ty : Ty) :
    (σ.declare name ty).Shows id (vis.filter (name != ·)) where
  agree := h.agree.declare name ty
  given := by
    rw [Scopes.declare, Bindings.next_declare]
    exact Nat.lt_succ_of_lt h.given
  visible := h.visible.declare h.given name

/-- A variable is visible behind its declaration. -/
theorem declare_self (hσ : σ.Agree) (hb : σ.walked.Numbered) (name : String) (ty : Ty) :
    (σ.declare name ty).Shows σ.walked.next (some name) where
  agree := hσ.declare name ty
  given := by
    rw [Scopes.declare, Bindings.next_declare]
    exact Nat.lt_succ_self _
  visible := .declare_self hb name

/-- What is visible after places at which frames were opened and closed is what was before. -/
theorem enclosed {nodes : List Expr} {out : Traced Place Scopes} {walk : Walking}
    (h : σ.Shows id vis) (hout : Visits σ nodes out walk) (hwalk : Walks σ.walked walk)
    (hscope : walk.value.scope = σ.walked.scope) : out.value.Shows id vis where
  agree := hout.agree
  given := by
    rw [hout.walked]
    exact Nat.lt_of_lt_of_le h.given hwalk.next_le
  visible := by
    rw [hout.walked]
    exact h.visible.of_scope hscope

/-- A statement hides the names that it declares. -/
theorem after {nodes : List Expr} {out : Traced Place Scopes} {r : Option Registry} {s : Stmt}
    (h : σ.Shows id vis) (hout : Visits σ nodes out (s.usage r σ.walked)) :
    out.value.Shows id (vis.filter (!s.declares.contains ·)) where
  agree := hout.agree
  given := by
    rw [hout.walked]
    exact Nat.lt_of_lt_of_le h.given (s.usage_walks r σ.walked).next_le
  visible := by
    intro name
    have hne : ¬σ.walked.next = id := Nat.ne_of_gt h.given
    rw [hout.walked, Stmt.lookup?_usage, Option.filter_eq_some_iff, ← h.visible name]
    by_cases hname : name ∈ s.declares <;> simp [hname, hne]

end Scopes.Shows

/-- Events change a variable exactly if the changes are made to the name that it is visible
under. -/
def ChangesAs (id : BindingId) (vis : Option String) (events : List UsageEvent)
    (changes : String → Bool) : Prop :=
  changedIn events id = vis.any changes

namespace ChangesAs

variable {id : BindingId} {vis : Option String} {a b : List UsageEvent} {c d : String → Bool}

/-- Events that do not change the variable stand for a part that changes none. -/
theorem nothing (h : changedIn a id = false) : ChangesAs id vis a fun _ => false := by
  rw [ChangesAs, h]
  cases vis <;> rfl

/-- Events in a row change what one of them does. -/
theorem append (ha : ChangesAs id vis a c) (hb : ChangesAs id vis b d) :
    ChangesAs id vis (a ++ b) fun name => c name || d name := by
  rw [ChangesAs, changedIn_append, ha, hb]
  cases vis <;> rfl

/-- Nothing is changed after the last events. -/
theorem last (ha : ChangesAs id vis a c) (hb : changedIn b id = false) :
    ChangesAs id vis (a ++ b) c := by
  rw [ChangesAs, changedIn_append, ha, hb, Bool.or_false]

/-- Nothing is changed before the first events. -/
theorem first (ha : changedIn a id = false) (hb : ChangesAs id vis b d) :
    ChangesAs id vis (a ++ b) d := by
  rw [ChangesAs, changedIn_append, ha, hb, Bool.false_or]

/-- Where the name may be declared anew, only the other names count. -/
theorem hidden {p : String → Bool} (h : ChangesAs id (vis.filter p) a c) :
    ChangesAs id vis a fun name => p name && c name := by
  rw [ChangesAs, h]
  cases vis with
  | none => rfl
  | some name => cases hp : p name <;> simp [Option.filter, hp]

end ChangesAs

section
variable {registry r : Registry} {id : BindingId}

mutual

/-- A statement changes the variable with the given number exactly if it changes the one that the
name refers to which the former is visible under. -/
theorem Stmt.changesAs :
    (s : Stmt) → {σ : Scopes} → {vis : Option String} → σ.Shows id vis →
      JudgedAt r (s.places registry σ) →
      ChangesAs id vis (s.usage (some r) σ.walked).trace (s.changes r ·)
  | .letVar _ name ty _ init, σ, vis, h, hj => by
    rw [Stmt.places] at hj
    rw [Stmt.usage, Traced.trace_bind]
    simp only [Stmt.changes]
    exact .last (Expr.changedIn_usage? h.agree.locals h.visible init .value hj.first.nodes?) rfl
  | .assign _ target value, σ, vis, h, hj => by
    rw [Stmt.places] at hj
    rw [Stmt.usage, Traced.trace_bind, Traced.trace_bind]
    simp only [Stmt.changes]
    have htarget := target.changedIn_placeUsage h.agree.locals h.visible hj.first.nodes
    have hvalue := value.changedIn_usage h.agree.locals h.visible .value hj.rest.first.nodes
    exact .append htarget (.last hvalue rfl)
  | .ret _ value, σ, vis, h, hj => by
    rw [Stmt.places] at hj
    rw [Stmt.usage, Traced.trace_bind]
    simp only [Stmt.changes]
    exact .last (Expr.changedIn_usage? h.agree.locals h.visible value .value hj.first.nodes?) rfl
  | .ifElse _ cond thenBlock elseBlock, σ, vis, h, hj => by
    rw [Stmt.places] at hj
    rw [Stmt.usage, Traced.trace_bind, Traced.trace_bind, ← List.append_assoc]
    simp only [Stmt.changes]
    have hcond := cond.changedIn_usage h.agree.locals h.visible .borrow hj.first.nodes
    have hvisits := (thenBlock.places_encloses registry (some r) σ h.agree).toVisits
    have hinner := h.enclosed hvisits (thenBlock.usage_walks (some r) σ.walked)
      (thenBlock.usage_scope (some r) σ.walked)
    have helse := Block.changesAs? elseBlock hinner hj.rest.rest
    rw [hvisits.walked] at helse
    exact .append (.append hcond (thenBlock.changesAs false h hj.rest.first)) helse
  | .whileLoop _ cond body, σ, vis, h, hj => by
    rw [Stmt.places] at hj
    rw [Stmt.usage, Traced.trace_bind]
    simp only [Stmt.changes]
    have hcond := cond.changedIn_usage h.agree.locals h.visible .borrow hj.first.nodes
    exact .append hcond (body.changesAs false h hj.rest)
  | .forEach _ var iterable body, σ, vis, h, hj => by
    rw [Stmt.places] at hj
    rw [Stmt.usage, Traced.trace_bind]
    simp only [Stmt.changes]
    have hiter := iterable.changedIn_usage h.agree.locals h.visible .borrow hj.first.nodes
    have hbody := body.changesAs false
      ((h.enter false).declare var iterable.tyOrVoid.loopElement) hj.rest.first
    exact .append hiter (.hidden (.first rfl (.last hbody rfl)))
  | .switch _ scrutinee cases, σ, vis, h, hj => by
    rw [Stmt.places] at hj
    rw [Stmt.usage, Traced.trace_bind]
    simp only [Stmt.changes]
    have hscrut := scrutinee.changedIn_usage h.agree.locals h.visible .borrow hj.first.nodes
    exact .append hscrut (SwitchCase.changesAs cases h hj.rest)
  | .breakLoop _, σ, vis, _, _ | .continueLoop _, σ, vis, _, _ => by
    simp only [Stmt.changes]
    exact .nothing rfl
  | .expr e, σ, vis, h, hj => by
    rw [Stmt.places] at hj
    rw [Stmt.usage, Traced.trace_bind]
    simp only [Stmt.changes]
    exact .last (e.changedIn_usage h.agree.locals h.visible .value hj.first.nodes) rfl
  | .block body, σ, vis, h, hj => by
    simp only [Stmt.changes]
    exact body.changesAs false h hj

/-- Statements change the variable exactly if they change it by its name, as far as that is not
declared anew. -/
theorem Stmt.changesAsList :
    (ss : List Stmt) → {σ : Scopes} → {vis : Option String} → σ.Shows id vis →
      JudgedAt r (Stmt.placesList registry σ ss) →
      ChangesAs id vis (Stmt.usageList (some r) σ.walked ss).trace (Stmt.changesList r · ss)
  | [], σ, vis, h, hj => by
    simp only [Stmt.changesList]
    exact .nothing rfl
  | s :: ss, σ, vis, h, hj => by
    rw [Stmt.placesList] at hj
    rw [Stmt.usageList, Traced.trace_bind]
    simp only [Stmt.changesList]
    have hvisits := s.places_visits registry (some r) σ h.agree
    have hrest := Stmt.changesAsList ss (h.after hvisits) hj.rest
    rw [hvisits.walked] at hrest
    exact .append (s.changesAs h hj.first) (.hidden hrest)

/-- The walk over a block changes what the block does. -/
theorem Block.changesAs :
    (body : Block) → {σ : Scopes} → {vis : Option String} → (inline : Bool) → σ.Shows id vis →
      JudgedAt r (body.places registry σ inline) →
      ChangesAs id vis (body.usage (some r) σ.walked).trace (body.changes r ·)
  | ⟨_, stmts⟩, σ, vis, inline, h, hj => by
    rw [Block.places] at hj
    rw [Block.usage, Traced.trace_bind]
    simp only [Block.changes]
    exact .last (Stmt.changesAsList stmts (h.enter inline) hj.first) rfl

/-- The walk over an optional block changes what the block does. -/
theorem Block.changesAs? :
    (body : Option Block) → {σ : Scopes} → {vis : Option String} → σ.Shows id vis →
      JudgedAt r (Block.places? registry σ body) →
      ChangesAs id vis (Block.usage? (some r) σ.walked body).trace (Block.changes? r · body)
  | none, σ, vis, h, hj => by
    simp only [Block.changes?]
    exact .nothing rfl
  | some body, σ, vis, h, hj => by
    simp only [Block.changes?]
    exact body.changesAs _ h hj

/-- The walk over the cases of a switch changes what they do. -/
theorem SwitchCase.changesAs :
    (cases : List SwitchCase) → {σ : Scopes} → {vis : Option String} → σ.Shows id vis →
      JudgedAt r (SwitchCase.placesList registry σ cases) →
      ChangesAs id vis (SwitchCase.usageList (some r) σ.walked cases).trace
        (SwitchCase.changesList r · cases)
  | [], σ, vis, h, hj => by
    simp only [SwitchCase.changesList]
    exact .nothing rfl
  | ⟨_, value, body, _⟩ :: cases, σ, vis, h, hj => by
    rw [SwitchCase.placesList] at hj
    rw [SwitchCase.usageList, Traced.trace_bind, Traced.trace_bind, ← List.append_assoc]
    simp only [SwitchCase.changesList]
    have hvalue := Expr.changedIn_usage? h.agree.locals h.visible value .borrow hj.first.nodes?
    have hbody := Stmt.changesAsList body (h.enter (isEmptyCase body)) hj.rest.first
    have hvisits := (Visits.caseBody registry (some r) h.agree
      (Stmt.placesList_visits registry (some r) body _ (h.agree.enter _))).toVisits
    have hwalks := Stmt.usageList_walks (some r) body σ.walked.push
    have hcases := SwitchCase.changesAs cases (h.enclosed hvisits hwalks.framed hwalks.scope_pop)
      hj.rest.rest
    rw [hvisits.walked] at hcases
    exact .append (.append hvalue hbody) hcases

end

end

/-! ## Functions -/

namespace FunctionDecl

/-- The body changes the variable that the signature declares under the name, given the names that
the signature declares after it. -/
def changes (r : Registry) (f : FunctionDecl) (name : String) (later : List String) : Bool :=
  !later.contains name && Stmt.changesList r name f.body.stmts

variable {registry r : Registry} {owner : Option String} {f : FunctionDecl}

/-- The walk changes a variable of the signature exactly if the body changes it. -/
theorem changedIn_signature {i : Nat} {name : String}
    (hj : JudgedAt r (Stmt.placesList registry (f.scopes registry owner) f.body.stmts))
    (hi : (f.signatureVars.map (·.1))[i]? = some name) :
    changedIn (Stmt.usageList (some r) f.signatureBindings f.body.stmts).trace i =
      f.changes r name ((f.signatureVars.map (·.1)).drop (i + 1)) := by
  have hlt : i < f.signatureBindings.next := by
    rw [Bindings.next, f.signatureBindings_walks.1]
    exact (List.getElem?_eq_some_iff.1 hi).1
  have hshows := Bindings.Shows.declareAll_getElem Bindings.numbered_empty hi
  rw [← signatureBindings_eq, show Bindings.empty.next + i = i from Nat.zero_add i] at hshows
  have hchanges := Stmt.changesAsList f.body.stmts
    ⟨f.scopes_agree registry owner, hlt, hshows⟩ hj
  exact hchanges.hidden

end FunctionDecl

end Oxidize
