import Oxidize.Proofs.Typing.Becomes
import Oxidize.Proofs.Typing.Resolved

/-!
# What resolution leaves alone

Resolution stays within `Program.Becomes`. The walk and the relation agree on which variables are in
scope (`Scope.Holds`), so they agree on which names are hidden, and with that on which accesses are
turned into variants and which calls are tagged. Every rule of the relation is one case of the walk;
`Program.resolve_frame` puts them together. `Program.dropsRange` is a program of which a range is
lost, that of the name of an enum before a dot.
-/

namespace Oxidize

/-! ## The variables in scope -/

namespace Scope

variable {α : Type} {s : Scope α} {locals : List String}

/-- The variables in scope are the given ones. -/
def Holds (s : Scope α) (locals : List String) : Prop :=
  ∀ name, s.isLocal name = true ↔ name ∈ locals

namespace Holds

/-- At the start no variable is in scope. -/
theorem empty : (Scope.empty : Scope α).Holds [] := fun _ => by simp [isLocal, lookup?, Scope.empty]

/-- Entering a block keeps the variables in scope. -/
theorem push (h : s.Holds locals) : s.push.Holds locals :=
  h

/-- A declaration brings its variable into scope. -/
theorem declare (h : s.Holds locals) (name : String) (a : α) :
    (s.declare name a).Holds (name :: locals) := by
  intro other
  rw [isLocal, lookup?_declare, List.mem_cons]
  by_cases hother : other = name
  · simp [hother]
  · rw [if_neg hother, ← isLocal, h other, or_iff_right hother]

/-- The parameters of a function come into scope one after the other. -/
theorem declareAll {params : List Param} {value : Param → α} (h : s.Holds locals) :
    (params.foldl (fun s p => s.declare p.name (value p)) s).Holds
      (params.map (·.name) ++ locals) := by
  induction params generalizing s locals with
  | nil => exact h
  | cons p params ih =>
    intro name
    rw [List.foldl_cons, ih (h.declare p.name (value p)) name]
    simp only [List.map_cons, List.mem_append, List.mem_cons]
    exact or_left_comm.trans or_assoc.symm

/-- A name is no variable in scope exactly if it is none of the given ones. -/
theorem isLocal_eq_false (h : s.Holds locals) {name : String} :
    s.isLocal name = false ↔ name ∉ locals := by
  rw [← h name, Bool.not_eq_true]

end Holds

end Scope

/-- What the identifier of a namespace stands for has that identifier. -/
theorem Namespace.ident_of_ofIdent? {name : String} {ns : Namespace}
    (h : Namespace.ofIdent? name = some ns) : ns.ident = name := by
  have hfound := List.find?_some h
  exact beq_iff_eq.1 hfound

section

variable {r : Registry} {env : Env} {locals : List String} {object : Expr} {name : String}

/-! ## What an unhidden name stands for -/

/-- An object that names an enum is the name of one, and no variable hides it. -/
theorem Expr.names_of_enumNamed? (h : env.Holds locals) (hc : enumNamed? r env object = some name) :
    object.Names locals name ∧ r.isEnum name = true := by
  unfold enumNamed? at hc
  split at hc
  case h_1 found hfound =>
    split at hc
    case isTrue henum =>
      obtain ⟨henum, hlocal⟩ := Bool.and_eq_true_iff.1 henum
      cases hc
      exact ⟨⟨hfound, h.isLocal_eq_false.1 (by simpa using hlocal)⟩, henum⟩
    case isFalse => cases hc
  case h_2 => cases hc

/-- A name that no variable hides names an enum if there is one of that name. -/
theorem Expr.Names.enumNamed? (h : env.Holds locals) (hname : object.Names locals name) :
    enumNamed? r env object = if r.isEnum name then some name else none := by
  simp only [Oxidize.enumNamed?, hname.1, h.isLocal_eq_false.2 hname.2, Bool.not_false,
    Bool.and_true]

/-- A name that no variable hides and that names no enum is not the name of one. -/
theorem Expr.Names.isEnum_eq_false (h : env.Holds locals) (hname : object.Names locals name)
    (hc : Oxidize.enumNamed? r env object = none) : r.isEnum name = false := by
  rw [hname.enumNamed? h] at hc
  simpa using hc

/-- An object that is a namespace is its name, and no variable hides it. -/
theorem Expr.names_of_namespaceOf? {ns : Namespace} (h : env.Holds locals)
    (hns : namespaceOf? none object env.isLocal = some ns) : object.Names locals ns.ident := by
  unfold namespaceOf? at hns
  split at hns
  case h_1 htag => cases htag
  case h_2 =>
    split at hns
    case h_1 found hfound =>
      split at hns
      case isTrue => cases hns
      case isFalse hlocal =>
        rw [Namespace.ident_of_ofIdent? hns]
        exact ⟨hfound, h.isLocal_eq_false.1 (Bool.not_eq_true _ ▸ hlocal)⟩
    case h_2 => cases hns

/-- A name that no variable hides is a namespace if there is one of that name. -/
theorem Expr.Names.namespaceOf? (h : env.Holds locals) (hname : object.Names locals name) :
    namespaceOf? none object env.isLocal = Namespace.ofIdent? name := by
  simp [Oxidize.namespaceOf?, hname.1, h.isLocal_eq_false.2 hname.2]

/-- Only a struct of the program governs a literal. -/
theorem isStruct_of_governing? {expected : Option Ty} (h : governing? r expected = some name) :
    r.isStruct name = true := by
  obtain ⟨t, -, ht⟩ := Option.bind_eq_some_iff.1 h
  dsimp only at ht
  split at ht
  case h_1 found hfound =>
    split at ht
    case isTrue hstruct =>
      cases ht
      exact hstruct
    case isFalse => cases ht
  case h_2 => cases ht

/-- The target of an aggregate is kept or found. -/
theorem retarget_becomes (expected : Option Ty) (target : AggregateTarget) :
    target.Becomes r (retarget r expected target).value := by
  cases target with
  | named name => exact .kept _
  | pending =>
    cases hg : governing? r expected with
    | some name => simp only [retarget, hg]; exact .found (isStruct_of_governing? hg)
    | none => simp only [retarget, hg]; exact .kept _

/-! ## Expressions -/

mutual

/-- Resolving an expression makes of it what it may become. -/
theorem Expr.resolve_becomes (h : env.Holds locals) (expected : Option Ty) :
    (e : Expr) → e.Becomes r locals (e.resolve r env expected).value
  | ⟨span, kind, ty⟩ => by
    simp only [Expr.resolve, Traced.value_bind, Traced.value_pure]
    exact .annotated (kind.resolve_becomes h span expected)

/-- Resolving the kind of an expression makes of it what it may become, one case for each kind. -/
theorem ExprKind.resolve_becomes (h : env.Holds locals) (span : Span) (expected : Option Ty) :
    (k : ExprKind) → k.Becomes r locals (k.resolve r env span expected).value
  | .literal value => by
    rw [ExprKind.resolve]
    exact .literal
  | .ident name => by
    rw [ExprKind.resolve]
    exact .ident
  | .unary op expr => by
    simp only [ExprKind.resolve, Traced.value_bind, Traced.value_pure]
    exact .unary (expr.resolve_becomes h none)
  | .binary op left right => by
    simp only [ExprKind.resolve, Traced.value_bind, Traced.value_pure]
    exact .binary (left.resolve_becomes h none) (right.resolve_becomes h none)
  | .call callee args => by
    simp only [ExprKind.resolve, Traced.value_bind, Traced.value_pure]
    exact .call (Expr.resolveList_becomes h _ args)
  | .methodCall object method ns args objectTy => by
    cases hc : calledEnum? r env ns object with
    | some name =>
      -- only a call without a tag addresses an enum
      cases ns with
      | some tag => cases hc
      | none =>
        obtain ⟨hname, henum⟩ := Expr.names_of_enumNamed? h hc
        rw [ExprKind.resolve_onEnum hc]
        exact .enumCall hname henum (Expr.resolveList_becomes h _ args)
    | none =>
      cases hns : namespaceOf? ns object env.isLocal with
      | some n =>
        rw [ExprKind.resolve_onNamespace hc hns]
        cases ns with
        | some tag =>
          rw [← Namespace.ident_of_ofIdent? hns]
          exact .taggedCall (Expr.resolveList_becomes h _ args)
        | none =>
          have hname := Expr.names_of_namespaceOf? h hns
          exact .namespaceCall hname (hname.isEnum_eq_false h hc)
            (Expr.resolveList_becomes h _ args)
      | none =>
        rw [ExprKind.resolve_onValue hc hns]
        cases ns with
        | some tag =>
          exact .strayCall hns (object.resolve_becomes h none) (Expr.resolveList_becomes h _ args)
        | none =>
          have hother (name : String) (hname : object.Names locals name) :
              r.isEnum name = false ∧ Namespace.ofIdent? name = none :=
            ⟨hname.isEnum_eq_false h hc, (hname.namespaceOf? h).symm.trans hns⟩
          exact .valueCall hother (object.resolve_becomes h none)
            (Expr.resolveList_becomes h _ args)
  | .index object index => by
    simp only [ExprKind.resolve, Traced.value_bind, Traced.value_pure]
    exact .index (object.resolve_becomes h none) (index.resolve_becomes h none)
  | .field object field objectTy => by
    cases hc : Oxidize.enumNamed? r env object with
    | some name =>
      obtain ⟨hname, henum⟩ := Expr.names_of_enumNamed? h hc
      simp only [ExprKind.resolve, hc]
      exact .enumMember hname henum
    | none =>
      cases hconst : namespaceConstant? object field env.isLocal with
      | some c =>
        obtain ⟨ns, hns, hc'⟩ := Option.bind_eq_some_iff.1 hconst
        have hname := Expr.names_of_namespaceOf? h hns
        simp only [ExprKind.resolve, hc, hconst]
        exact .constant hname (hname.isEnum_eq_false h hc) (Option.isSome_of_eq_some hc')
      | none =>
        have hother (name : String) (hname : object.Names locals name) :
            r.isEnum name = false ∧
              (Namespace.ofIdent? name).bind (·.constant? field) = none :=
          ⟨hname.isEnum_eq_false h hc, hname.namespaceOf? h ▸ hconst⟩
        simp only [ExprKind.resolve, hc, hconst, Traced.value_bind, Traced.value_pure]
        exact .field hother (object.resolve_becomes h none)
  | .array items => by
    simp only [ExprKind.resolve, Traced.value_bind, Traced.value_pure]
    exact .array (Expr.resolveList_becomes h _ items)
  | .aggregate target fields => by
    simp only [ExprKind.resolve, Traced.value_bind, Traced.value_pure]
    exact .aggregate (retarget_becomes expected target) (FieldInit.resolveList_becomes h _ fields)
  | .tuple items => by
    rw [ExprKind.resolve_tuple]
    exact .tuple (Expr.resolveList_becomes h _ items)
  | .variant enumName variant none => by
    simp only [ExprKind.resolve, Expr.resolveOption, Traced.value_bind, Traced.value_pure]
    exact .variant .none
  | .variant enumName variant (some data) => by
    simp only [ExprKind.resolve, Expr.resolveOption, Traced.value_bind, Traced.value_pure]
    exact .variant (.some (Expr.resolveList_becomes h _ data))
  | .ternary cond thenExpr elseExpr => by
    simp only [ExprKind.resolve, Traced.value_bind, Traced.value_pure]
    exact .ternary (cond.resolve_becomes h none) (thenExpr.resolve_becomes h expected)
      (elseExpr.resolve_becomes h expected)
  | .cast expr ty => by
    simp only [ExprKind.resolve, Traced.value_bind, Traced.value_pure]
    exact .cast (expr.resolve_becomes h none)

/-- Resolving expressions makes of each what it may become. -/
theorem Expr.resolveList_becomes (h : env.Holds locals) (expected : List Ty) :
    (es : List Expr) →
      List.Forall₂ (Expr.Becomes r locals) es (Expr.resolveList r env expected es).value
  | [] => by
    rw [Expr.resolveList]
    exact .nil
  | e :: es => by
    simp only [Expr.resolveList, Traced.value_bind, Traced.value_pure]
    exact .cons (e.resolve_becomes h expected.head?) (Expr.resolveList_becomes h expected.tail es)

/-- Resolving fields makes of their values what they may become. -/
theorem FieldInit.resolveList_becomes (h : env.Holds locals) (target : AggregateTarget) :
    (fields : List FieldInit) →
      List.Forall₂ (FieldInit.Becomes r locals) fields
        (FieldInit.resolveList r env target fields).value
  | [] => by
    rw [FieldInit.resolveList]
    exact .nil
  | ⟨name, value⟩ :: fields => by
    simp only [FieldInit.resolveList, Traced.value_bind, Traced.value_pure]
    exact .cons (.valued (value.resolve_becomes h _))
      (FieldInit.resolveList_becomes h target fields)

end

/-- Resolving an optional expression makes of it what it may become. -/
theorem Expr.resolve?_becomes (h : env.Holds locals) (expected : Option Ty) (e : Option Expr) :
    Option.Rel (Expr.Becomes r locals) e (Expr.resolve? r env expected e).value := by
  cases e with
  | none => exact .none
  | some e => exact .some (e.resolve_becomes h expected)

end

/-! ## Statements -/

section

variable {r : Registry} {ret : Ty}

/-- The variables in scope after a statement are those before it and those that it declares. -/
theorem Stmt.resolve_holds {env : Env} {locals : List String} (h : env.Holds locals) (isTail : Bool)
    (s : Stmt) : (s.resolve r ret env isTail).value.2.Holds (s.declares ++ locals) := by
  cases s with
  | letVar span name ty mutable init =>
    rw [Stmt.resolve]
    exact h.declare name _
  | _ =>
    rw [Stmt.resolve]
    exact h

mutual

/-- Resolving a statement makes of it what it may become, one case for each kind. -/
theorem Stmt.resolve_becomes {env : Env} {locals : List String} (h : env.Holds locals)
    (isTail : Bool) : (s : Stmt) → s.Becomes r locals (s.resolve r ret env isTail).value.1
  | .letVar span name ty mutable init => by
    simp only [Stmt.resolve, Traced.value_bind, Traced.value_pure]
    exact .letVar (Expr.resolve?_becomes h _ init)
  | .assign span target value => by
    simp only [Stmt.resolve, Traced.value_bind, Traced.value_pure]
    exact .assign (target.resolve_becomes h none) (value.resolve_becomes h _)
  | .ret span value => by
    simp only [Stmt.resolve, Traced.value_bind, Traced.value_pure]
    exact .ret (Expr.resolve?_becomes h _ value)
  | .ifElse span cond thenBlock elseBlock => by
    simp only [Stmt.resolve, Traced.value_bind, Traced.value_pure]
    exact .ifElse (cond.resolve_becomes h none) (thenBlock.resolve_becomes h)
      (Block.resolve?_becomes h elseBlock)
  | .whileLoop span cond body => by
    simp only [Stmt.resolve, Traced.value_bind, Traced.value_pure]
    exact .whileLoop (cond.resolve_becomes h none) (body.resolve_becomes h)
  | .forEach span var iterable body => by
    simp only [Stmt.resolve, Traced.value_bind, Traced.value_pure]
    exact .forEach (iterable.resolve_becomes h none) (body.resolve_becomes (h.push.declare var _))
  | .switch span scrutinee cases => by
    simp only [Stmt.resolve, Traced.value_bind, Traced.value_pure]
    exact .switch (scrutinee.resolve_becomes h none) (SwitchCase.resolveList_becomes h _ cases)
  | .breakLoop span => by
    rw [Stmt.resolve]
    exact .breakLoop
  | .continueLoop span => by
    rw [Stmt.resolve]
    exact .continueLoop
  | .expr e => by
    simp only [Stmt.resolve, Traced.value_bind, Traced.value_pure]
    exact .expr (e.resolve_becomes h _)
  | .block body => by
    simp only [Stmt.resolve, Traced.value_bind, Traced.value_pure]
    exact .block (body.resolve_becomes h)

/-- Resolving statements makes of each what it may become where the earlier ones have declared their
variables. -/
theorem Stmt.resolveList_becomes {env : Env} {locals : List String} (h : env.Holds locals) :
    (ss : List Stmt) → Stmt.BecomesList r locals ss (Stmt.resolveList r ret env ss).value
  | [] => by
    rw [Stmt.resolveList]
    exact .nil
  | s :: ss => by
    simp only [Stmt.resolveList, Traced.value_bind, Traced.value_pure]
    exact .cons (s.resolve_becomes h false)
      (Stmt.resolveList_becomes (Stmt.resolve_holds h false s) ss)

/-- Resolving a block makes of it what it may become. -/
theorem Block.resolve_becomes {env : Env} {locals : List String} (h : env.Holds locals) :
    (body : Block) → body.Becomes r locals (body.resolve r ret env).value
  | ⟨span, stmts⟩ => by
    simp only [Block.resolve, Traced.value_bind, Traced.value_pure]
    exact .stmts (Stmt.resolveList_becomes h.push stmts)

/-- Resolving an optional block makes of it what it may become. -/
theorem Block.resolve?_becomes {env : Env} {locals : List String} (h : env.Holds locals) :
    (body : Option Block) → Block.Becomes? r locals body (Block.resolve? r ret env body).value
  | none => by
    rw [Block.resolve?]
    exact .none
  | some body => by
    simp only [Block.resolve?, Traced.value_bind, Traced.value_pure]
    exact .some (body.resolve_becomes h)

/-- Resolving the cases of a switch makes of each what it may become. -/
theorem SwitchCase.resolveList_becomes {env : Env} {locals : List String} (h : env.Holds locals)
    (scrutineeTy : Option Ty) : (cases : List SwitchCase) →
      SwitchCase.BecomesList r locals cases
        (SwitchCase.resolveList r ret env scrutineeTy cases).value
  | [] => by
    rw [SwitchCase.resolveList]
    exact .nil
  | ⟨span, value, body, fallthrough⟩ :: cases => by
    simp only [SwitchCase.resolveList, Traced.value_bind, Traced.value_pure]
    exact .cons (Expr.resolve?_becomes h _ value) (Stmt.resolveList_becomes h.push body)
      (SwitchCase.resolveList_becomes h scrutineeTy cases)

end

/-- Resolving the body of a function makes of its statements what they may become. -/
theorem Stmt.resolveBody_becomes {env : Env} {locals : List String} (h : env.Holds locals)
    (ss : List Stmt) : Stmt.BecomesList r locals ss (Stmt.resolveBody r ret env ss).value := by
  induction ss generalizing env locals with
  | nil => exact .nil
  | cons s ss ih =>
    cases ss with
    | nil => exact .cons (s.resolve_becomes h _) .nil
    | cons next ss =>
      rw [Stmt.resolveBody_cons r env ret s (List.cons_ne_nil _ _)]
      exact .cons (s.resolve_becomes h false) (ih (Stmt.resolve_holds h false s))

end

/-! ## Programs -/

/-- The variables in scope at the start of a function. -/
theorem FunctionDecl.env_holds (r : Registry) (owner : Option String) (f : FunctionDecl) :
    (f.env r owner).Holds (f.locals owner) := by
  cases owner with
  | none => exact Scope.Holds.declareAll .empty
  | some owner => exact Scope.Holds.declareAll (Scope.Holds.empty.declare receiverName _)

/-- Resolving a function makes of it what it may become. -/
theorem FunctionDecl.resolve_becomes (r : Registry) (owner : Option String) (f : FunctionDecl) :
    f.Becomes r owner (f.resolve r owner).value where
  header := rfl
  body := Stmt.resolveBody_becomes (f.env_holds r owner) f.body.stmts

/-- A list is related member by member to its image under what relates every member. -/
theorem forall₂_map_self {α : Type} {R : α → α → Prop} {f : α → α} (h : ∀ a, R a (f a))
    (as : List α) : List.Forall₂ R as (as.map f) :=
  List.forall₂_map_right_iff.2 (List.forall₂_same.2 fun a _ => h a)

/-- Resolving a declaration makes of it what it may become. -/
theorem Decl.resolve_becomes (r : Registry) (d : Decl) : d.Becomes r (d.resolve r).value := by
  cases d with
  | struct => exact .struct
  | enum => exact .enum
  | function f => exact .function (f.resolve_becomes r none)
  | impl b =>
    rw [Decl.resolve, Traced.value_bind, Traced.value_mapM, Traced.value_pure]
    exact .impl (forall₂_map_self (fun f => f.resolve_becomes r (some b.target)) b.methods)
  | _ => exact .synonym

/-- **Resolution changes only what it resolves.** The declarations of a program stay in their order
and as they are, except for the statements of bodies, and there every statement and every expression
becomes what `Program.Becomes` lets it become. No name, literal, operator or written type is lost,
repeated or moved, and no range either, except for that of the name of an enum before a dot: where the
access becomes a variant, the name stays without its own range. -/
theorem Program.resolve_frame (p : Program) :
    p.Becomes p.resolve.value ∧
      LeavesBecome (.ofProgram p) p.leaves p.resolve.value.leaves := by
  have hbecomes : p.Becomes p.resolve.value := by
    rw [Program.Becomes, Program.decls_resolve]
    exact forall₂_map_self (Decl.resolve_becomes (.ofProgram p)) p.decls
  exact ⟨hbecomes, hbecomes.leaves⟩

/-- A function that reads a member of an enum. The only range in the program is that of the enum's
name before the dot. -/
def Program.dropsRange : Program where
  decls := [
    .enum ⟨.zero, "Color", [⟨"Red", .unit⟩], []⟩,
    .function ⟨.zero, "pick", [], .void, ⟨.zero, [
      .expr ⟨.zero, .field ⟨⟨20, 5⟩, .ident "Color", none⟩ "Red" none, none⟩]⟩, false, none⟩]

/-- The range is lost. The variant is left with the range of the whole access. -/
theorem Program.dropsRange_resolve :
    dropsRange.leaves.filterMap Leaf.range? = [.zero, .zero, ⟨20, 5⟩] ∧
      dropsRange.resolve.value.leaves.filterMap Leaf.range? = [.zero, .zero] := by
  decide +kernel

end Oxidize
