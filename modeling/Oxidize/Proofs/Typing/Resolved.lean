import Mathlib.Data.List.Basic
import Oxidize.Typing.Resolve

/-!
# What type resolution keeps

Resolving changes neither which name an object is (`Expr.ident?_resolve`), and so neither the enum
nor the namespace that it names, nor how many arguments a call has, nor anything of a declaration
that a registry records (`Registry.ofProgram_resolve`). Of the faults a strict resolution keeps the
first one, and a lenient resolution none.
-/

namespace Oxidize

/-! ## Traces -/

namespace Traced

variable {ε α β : Type}

/-- A loop runs its first round and then the others. -/
theorem mapM_cons (f : α → Traced ε β) (x : α) (xs : List α) :
    (x :: xs).mapM f = do
      let y ← f x
      let ys ← xs.mapM f
      return y :: ys := by
  have : LawfulMonad (Traced ε) := .mk' (Traced ε)
    (fun x => congrArg (Traced.mk x.value) (List.append_nil x.trace)) pure_bind bind_assoc
  exact List.mapM_cons

/-- The values of a mapped list are the values of its members. -/
theorem value_mapM (f : α → Traced ε β) (xs : List α) :
    (xs.mapM f).value = xs.map fun x => (f x).value := by
  induction xs with
  | nil => rfl
  | cons x xs ih => rw [mapM_cons, value_bind, value_bind, value_pure, ih, List.map_cons]

end Traced

/-! ## Names -/

/-- A namespace is found by its name. -/
@[simp] theorem Namespace.ofIdent?_ident (ns : Namespace) : ofIdent? ns.ident = some ns := by
  cases ns <;> decide

variable (r : Registry) (env : Env)

/-! ## Branches of resolution -/

/-- The enum that a method call addresses. One with a tag addresses none. -/
def calledEnum? (ns : Option String) (object : Expr) : Option String :=
  match ns with
  | none => enumNamed? r env object
  | some _ => none

/-- The types that the items of a tuple in a place of the expected type flow into. -/
def tupleParts : Option Ty → List Ty
  | some (.tuple elems) => elems
  | _ => []

namespace ExprKind

variable {r : Registry} {env : Env} {span : Span} {expected : Option Ty} {method : String}
  {args : List Expr} {objectTy : Option Ty}

/-- A method call on an enum builds a variant. -/
theorem resolve_onEnum {ns : Option String} {object : Expr} {name : String}
    (h : calledEnum? r env ns object = some name) :
    (ExprKind.methodCall object method ns args objectTy).resolve r env span expected = do
      let payload := (r.variantPayload? name method).getD []
      return .variant name method
        (some (← Expr.resolveList r env ((payload.map r.normalize).map r.normalize) args)) := by
  cases ns with
  | some tag => cases h
  | none => simp only [ExprKind.resolve, show enumNamed? r env object = some name from h]

/-- A method call on a namespace is tagged, and its object stays as it is. -/
theorem resolve_onNamespace {ns : Option String} {object : Expr} {n : Namespace}
    (hc : calledEnum? r env ns object = none) (h : namespaceOf? ns object env.isLocal = some n) :
    (ExprKind.methodCall object method ns args objectTy).resolve r env span expected = do
      .tellIf (Dispatch.of? (some n) none method).isNone (.note (.noMember n method))
      return .methodCall object method (some n.ident) (← Expr.resolveList r env [] args)
        objectTy := by
  cases ns with
  | some tag => simp only [ExprKind.resolve, h]
  | none => simp only [ExprKind.resolve, show enumNamed? r env object = none from hc, h]

/-- A method call on a value records the type of its object. -/
theorem resolve_onValue {ns : Option String} {object : Expr}
    (hc : calledEnum? r env ns object = none) (h : namespaceOf? ns object env.isLocal = none) :
    (ExprKind.methodCall object method ns args objectTy).resolve r env span expected = do
      let object ← object.resolve r env none
      let recv := r.normalize object.tyOrVoid
      reportDispatch recv method span
      let params := methodParams r recv method args.length
      return .methodCall object method ns (← Expr.resolveList r env (params.map r.normalize) args)
        (some recv) := by
  cases ns with
  | some tag => simp only [ExprKind.resolve, h]
  | none => simp only [ExprKind.resolve, show enumNamed? r env object = none from hc, h]

/-- The items of a tuple are resolved one by one. -/
theorem resolve_tuple (items : List Expr) :
    (ExprKind.tuple items).resolve r env span expected = do
      return .tuple (← Expr.resolveList r env (tupleParts expected) items) := by
  rcases expected with _ | t
  · simp only [ExprKind.resolve, tupleParts]
  · cases t <;> simp only [ExprKind.resolve, tupleParts]

end ExprKind

/-- Only a method call that addresses no enum is resolved to a method call. On a value, it records
the type of its object. -/
theorem ExprKind.methodCall_of_resolve {span : Span} {expected : Option Ty} {kind : ExprKind}
    {object : Expr} {method : String} {ns : Option String} {args : List Expr}
    {objectTy : Option Ty} (h : (kind.resolve r env span expected).value =
      .methodCall object method ns args objectTy) :
    ∃ object₀ ns₀ args₀ objectTy₀, kind = .methodCall object₀ method ns₀ args₀ objectTy₀ ∧
      calledEnum? r env ns₀ object₀ = none ∧
      ((∃ n : Namespace, ns = some n.ident) ∨ objectTy = some (r.normalize object.tyOrVoid)) := by
  cases kind with
  | methodCall object₀ method₀ ns₀ args₀ objectTy₀ =>
    cases hc : calledEnum? r env ns₀ object₀ with
    | some name =>
      rw [ExprKind.resolve_onEnum hc] at h
      cases h
    | none =>
      cases hns : namespaceOf? ns₀ object₀ env.isLocal with
      | some n =>
        rw [ExprKind.resolve_onNamespace hc hns] at h
        cases h
        exact ⟨_, _, _, _, rfl, hc, .inl ⟨n, rfl⟩⟩
      | none =>
        rw [ExprKind.resolve_onValue hc hns] at h
        cases h
        exact ⟨_, _, _, _, rfl, hc, .inr rfl⟩
  | field object field objectTy =>
    cases hc : enumNamed? r env object with
    | some name =>
      simp only [ExprKind.resolve, hc] at h
      cases h
    | none =>
      cases hconst : namespaceConstant? object field env.isLocal with
      | some c =>
        simp only [ExprKind.resolve, hc, hconst] at h
        cases h
      | none =>
        simp only [ExprKind.resolve, hc, hconst] at h
        cases h
  | tuple items =>
    rw [ExprKind.resolve_tuple] at h
    cases h
  | _ =>
    rw [ExprKind.resolve] at h
    cases h

/-- Resolving an expression keeps the name that it is, if it is one. -/
@[simp] theorem Expr.ident?_resolve (expected : Option Ty) (e : Expr) :
    (e.resolve r env expected).value.ident? = e.ident? := by
  obtain ⟨span, kind, ty⟩ := e
  simp only [Expr.resolve, Traced.value_bind, Traced.value_pure, Expr.ident?]
  cases kind with
  | methodCall object method ns args objectTy =>
    cases hc : calledEnum? r env ns object with
    | some name => rw [ExprKind.resolve_onEnum hc]; rfl
    | none =>
      cases hns : namespaceOf? ns object env.isLocal with
      | some n => rw [ExprKind.resolve_onNamespace hc hns]; rfl
      | none => rw [ExprKind.resolve_onValue hc hns]; rfl
  | field object field objectTy =>
    cases hc : enumNamed? r env object with
    | some name => simp only [ExprKind.resolve, hc, Traced.value_pure]
    | none =>
      cases hconst : namespaceConstant? object field env.isLocal with
      | some c => simp only [ExprKind.resolve, hc, hconst, Traced.value_pure]
      | none => simp only [ExprKind.resolve, hc, hconst, Traced.value_bind, Traced.value_pure]
  | tuple items => rw [ExprKind.resolve_tuple]; rfl
  | _ => rw [ExprKind.resolve]; rfl

/-- Resolving an object does not change which enum it names. -/
@[simp] theorem enumNamed?_resolve (expected : Option Ty) (object : Expr) :
    enumNamed? r env (object.resolve r env expected).value = enumNamed? r env object := by
  rw [enumNamed?, enumNamed?, Expr.ident?_resolve]

/-- Resolving an object does not change which enum a call on it builds a variant of. -/
@[simp] theorem calledEnum?_resolve (ns : Option String) (expected : Option Ty) (object : Expr) :
    calledEnum? r env ns (object.resolve r env expected).value = calledEnum? r env ns object := by
  cases ns with
  | some tag => rfl
  | none => exact enumNamed?_resolve r env expected object

/-- Resolving an object does not change which namespace it is. -/
@[simp] theorem namespaceOf?_resolve (tag : Option String) (expected : Option Ty) (object : Expr)
    (isLocal : String → Bool) :
    namespaceOf? tag (object.resolve r env expected).value isLocal =
      namespaceOf? tag object isLocal := by
  cases tag with
  | some tag => rfl
  | none => rw [namespaceOf?, namespaceOf?, Expr.ident?_resolve]

/-- Resolving an object does not change which constant of a namespace is meant. -/
@[simp] theorem namespaceConstant?_resolve (expected : Option Ty) (object : Expr) (field : String)
    (isLocal : String → Bool) :
    namespaceConstant? (object.resolve r env expected).value field isLocal =
      namespaceConstant? object field isLocal := by
  rw [namespaceConstant?, namespaceOf?_resolve, namespaceConstant?]

/-- Resolution keeps the number of expressions. -/
@[simp] theorem Expr.length_resolveList (expected : List Ty) (es : List Expr) :
    (Expr.resolveList r env expected es).value.length = es.length := by
  induction es generalizing expected with
  | nil => rw [Expr.resolveList]; rfl
  | cons e es ih =>
    rw [Expr.resolveList, Traced.value_bind, Traced.value_bind, Traced.value_pure,
      List.length_cons, ih, List.length_cons]

/-- A statement of a function that is not the last one. -/
theorem Stmt.resolveBody_cons (ret : Ty) (s : Stmt) {ss : List Stmt} (hss : ss ≠ []) :
    Stmt.resolveBody r ret env (s :: ss) = do
      let (s, env) ← s.resolve r ret env false
      return s :: (← Stmt.resolveBody r ret env ss) := by
  rw [Stmt.resolveBody]
  exact hss

/-! ## Declarations -/

/-- The declarations of a resolved program. -/
theorem Program.decls_resolve (p : Program) :
    p.resolve.value.decls = p.decls.map fun d => (d.resolve (.ofProgram p)).value :=
  Traced.value_mapM _ _

/-- The functions of a resolved program. -/
theorem Program.functions_resolve (p : Program) :
    p.resolve.value.functions =
      p.functions.map fun f => (f.resolve (.ofProgram p) none).value := by
  rw [Program.functions, Program.functions, Program.decls_resolve, List.filterMap_map,
    List.map_filterMap]
  exact List.filterMap_congr fun d _ => by cases d <;> rfl

/-- The method blocks of a resolved program. -/
theorem Program.impls_resolve (p : Program) :
    p.resolve.value.impls = p.impls.map fun b =>
      { b with methods := b.methods.map fun f =>
        (f.resolve (.ofProgram p) (some b.target)).value } := by
  rw [Program.impls, Program.impls, Program.decls_resolve, List.filterMap_map, List.map_filterMap]
  refine List.filterMap_congr fun d _ => ?_
  cases d with
  | impl b => exact congrArg (fun ms => some { b with methods := ms }) (Traced.value_mapM _ _)
  | _ => rfl

/-- The bodies of a program, each with the aggregate in whose method block it stands. -/
def Program.ownedBodies (p : Program) : List (Option String × FunctionDecl) :=
  p.impls.flatMap (fun b => b.methods.map (some b.target, ·)) ++ p.functions.map (none, ·)

/-- The bodies of a resolved program, each resolved for its owner. -/
theorem Program.ownedBodies_resolve (p : Program) :
    p.resolve.value.ownedBodies =
      p.ownedBodies.map fun owned => (owned.1, (owned.2.resolve (.ofProgram p) owned.1).value) := by
  rw [Program.ownedBodies, Program.ownedBodies, Program.functions_resolve, Program.impls_resolve,
    List.map_append, List.map_flatMap, List.flatMap_map]
  simp only [List.map_map]
  rfl

/-- The bodies with their owners are the bodies of the program. -/
theorem Program.mem_bodies_of_owned {p : Program} {owned : Option String × FunctionDecl}
    (h : owned ∈ p.ownedBodies) : owned.2 ∈ p.bodies := by
  have hbodies : p.bodies = p.ownedBodies.map (·.2) := by
    simp [Program.bodies, Program.ownedBodies, List.map_flatMap, Function.comp_def]
  rw [hbodies]
  exact List.mem_map_of_mem h

/-- A view of the declarations that keeps no body is the same after resolution. -/
theorem Program.filterMap_resolve {α : Type} (p : Program) (view : Decl → Option α)
    (hview : ∀ d, view (d.resolve (.ofProgram p)).value = view d) :
    p.resolve.value.decls.filterMap view = p.decls.filterMap view := by
  rw [Program.decls_resolve, List.filterMap_map]
  exact List.filterMap_congr fun d _ => hview d

/-- Resolving a program changes nothing that its registry records. -/
theorem Registry.ofProgram_resolve (p : Program) :
    Registry.ofProgram p.resolve.value = .ofProgram p := by
  rw [Registry.ofProgram, Registry.ofProgram, Program.functions_resolve, Program.impls_resolve]
  congr 1
  · exact p.filterMap_resolve _ fun d => by cases d <;> rfl
  · exact p.filterMap_resolve _ fun d => by cases d <;> rfl
  · exact p.filterMap_resolve _ fun d => by cases d <;> rfl
  · rw [List.map_map]; rfl
  · simp only [List.flatMap_map, List.map_map]; rfl

/-! ## The error that is kept -/

/-- A lenient resolution keeps no fault. -/
theorem foldl_keepFault_lenient (kept : Option Fault) (fs : List Fault) :
    fs.foldl (keepFault false) kept = kept := by
  induction fs with
  | nil => rfl
  | cons f fs ih => exact ih

/-- A strict resolution keeps the first fault, unless it has kept one before. -/
theorem foldl_keepFault_strict (kept : Option Fault) (fs : List Fault) :
    fs.foldl (keepFault true) kept = kept.or fs.head? := by
  induction fs generalizing kept with
  | nil => rw [List.foldl_nil, List.head?_nil, Option.or_none]
  | cons f fs ih =>
    rw [List.foldl_cons, ih]
    cases kept <;> rfl

/-- A lenient resolution has no error. -/
theorem Program.error_resolveWith_lenient (p : Program) : (p.resolveWith false).error = none :=
  foldl_keepFault_lenient ..

/-- A lenient resolution never fails. -/
theorem Program.verdict_resolveWith_lenient (p : Program) :
    (p.resolveWith false).verdict = .ok p.resolve.value := by
  rw [Resolution.verdict, p.error_resolveWith_lenient]
  rfl

end Oxidize
