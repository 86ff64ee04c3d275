import Oxidize.Proofs.Typing.Resolved

/-!
# Resolving a resolved program

The second of two resolutions starts from other kinds, tags, targets and annotations than the
first: accesses to enums have become variants, calls on namespaces carry their tag, and literals
have found their target. `Resolving.Again` says that it comes to the same result all the same, with
the same faults in the same order; notes may differ, since a literal finds its target only once.
The relation holds of every expression in every place of every expected type, and from there of
statements, functions and programs (`Program.resolve_resolve`).
-/

namespace Oxidize

/-! ## Two resolutions with the same outcome -/

namespace Resolving

variable {α β : Type}

/-- The faults of two resolutions in a row are those of both. -/
@[simp] theorem faults_bind (x : Resolving α) (f : α → Resolving β) :
    faults (x >>= f) = faults x ++ faults (f x.value) :=
  List.filterMap_append

/-- The second resolution has the result and the faults of the first. -/
structure Again (x y : Resolving α) : Prop where
  value : y.value = x.value
  faults : faults y = faults x

namespace Again

variable {x y : Resolving α} {f g : α → Resolving β}

/-- A resolution has its own result and faults. -/
theorem refl (x : Resolving α) : Again x x :=
  ⟨rfl, rfl⟩

/-- Two resolutions in a row are repeated by repeating both. -/
theorem bind (h : Again x y) (hfg : Again (f x.value) (g x.value)) : Again (x >>= f) (y >>= g) where
  value := by rw [Traced.value_bind, Traced.value_bind, h.value, hfg.value]
  faults := by rw [faults_bind, faults_bind, h.value, h.faults, hfg.faults]

/-- What is made of the same results is the same. -/
theorem map (h : Again x y) (f : α → β) :
    Again (x >>= fun a => pure (f a)) (y >>= fun a => pure (f a)) :=
  h.bind (refl _)

/-- Members that come to the same come to the same together. -/
theorem mapM {f : α → Resolving α} (h : ∀ a, Again (f a) (f (f a).value)) (as : List α) :
    Again (as.mapM f) ((as.mapM f).value.mapM f) := by
  induction as with
  | nil => exact refl _
  | cons a as ih =>
    rw [Traced.value_mapM] at ih ⊢
    rw [List.map_cons, Traced.mapM_cons, Traced.mapM_cons]
    exact (h a).bind (ih.bind (refl _))

end Again

end Resolving

open Resolving

/-! ## Expressions -/

section

variable (r : Registry) (env : Env)

/-- A literal that found its target keeps it, and one that found none finds none again. -/
theorem retarget_again (expected : Option Ty) (target : AggregateTarget) :
    Again (retarget r expected target)
      (retarget r expected (retarget r expected target).value) := by
  cases target with
  | named name => exact .refl _
  | pending =>
    cases h : governing? r expected with
    | some name => simp only [retarget, h]; exact ⟨rfl, rfl⟩
    | none => simp only [retarget, h, Traced.value_pure]; exact .refl _

mutual

/-- An annotated expression in the same place is annotated as before. -/
theorem Expr.resolve_again (expected : Option Ty) :
    (e : Expr) →
      Again (e.resolve r env expected) ((e.resolve r env expected).value.resolve r env expected)
  | ⟨span, kind, ty⟩ => by
    simp only [Expr.resolve, Traced.value_bind, Traced.value_pure]
    exact (kind.resolve_again expected span).bind (.refl _)

/-- Resolving the kind of an expression again changes nothing. -/
theorem ExprKind.resolve_again (expected : Option Ty) (span : Span) :
    (k : ExprKind) →
      Again (k.resolve r env span expected)
        ((k.resolve r env span expected).value.resolve r env span expected)
  | .literal value => by
    simp only [ExprKind.resolve, Traced.value_pure]
    exact .refl _
  | .ident name => by
    simp only [ExprKind.resolve, Traced.value_bind, Traced.value_pure]
    exact .refl _
  | .unary op expr => by
    simp only [ExprKind.resolve, Traced.value_bind, Traced.value_pure]
    exact (expr.resolve_again none).map _
  | .binary op left right => by
    simp only [ExprKind.resolve, Traced.value_bind, Traced.value_pure]
    exact (left.resolve_again none).bind ((right.resolve_again none).map _)
  | .call callee args => by
    simp only [ExprKind.resolve, Traced.value_bind, Traced.value_pure]
    exact (Expr.resolveList_again _ args).map _
  | .methodCall object method ns args objectTy => by
    cases hc : calledEnum? r env ns object with
    | some name =>
      rw [ExprKind.resolve_onEnum hc]
      simp only [ExprKind.resolve, Expr.resolveOption, Traced.value_bind, Traced.value_pure,
        Traced.bind_assoc, Traced.pure_bind]
      exact (Expr.resolveList_again _ args).map _
    | none =>
      cases hns : namespaceOf? ns object env.isLocal with
      | some n =>
        -- the tag of the first resolution is what the second one goes by
        rw [ExprKind.resolve_onNamespace hc hns]
        simp only [Traced.value_bind, Traced.value_pure]
        have hns' : namespaceOf? (some n.ident) object env.isLocal = some n :=
          Namespace.ofIdent?_ident n
        rw [ExprKind.resolve_onNamespace rfl hns']
        exact (Again.refl _).bind ((Expr.resolveList_again _ args).map _)
      | none =>
        rw [ExprKind.resolve_onValue hc hns]
        simp only [Traced.value_bind, Traced.value_pure]
        rw [ExprKind.resolve_onValue (by simpa using hc) (by simpa using hns),
          Expr.length_resolveList]
        exact (object.resolve_again none).bind
          ((Again.refl _).bind ((Expr.resolveList_again _ args).map _))
  | .index object index => by
    simp only [ExprKind.resolve, Traced.value_bind, Traced.value_pure]
    exact (object.resolve_again none).bind ((index.resolve_again none).map _)
  | .field object field objectTy => by
    cases hc : enumNamed? r env object with
    | some name =>
      simp only [ExprKind.resolve, hc, Traced.value_pure, Expr.resolveOption]
      exact ⟨rfl, rfl⟩
    | none =>
      cases hconst : namespaceConstant? object field env.isLocal with
      | some c =>
        simp only [ExprKind.resolve, hc, hconst, Traced.value_pure]
        exact .refl _
      | none =>
        simp only [ExprKind.resolve, hc, hconst, Traced.value_bind, Traced.value_pure,
          enumNamed?_resolve, namespaceConstant?_resolve]
        exact (object.resolve_again none).bind (.refl _)
  | .array items => by
    simp only [ExprKind.resolve, Traced.value_bind, Traced.value_pure, Expr.length_resolveList]
    exact (Expr.resolveList_again _ items).map _
  | .aggregate target fields => by
    simp only [ExprKind.resolve, Traced.value_bind, Traced.value_pure]
    exact (retarget_again r expected target).bind ((FieldInit.resolveList_again _ fields).map _)
  | .tuple items => by
    simp only [ExprKind.resolve_tuple, Traced.value_bind, Traced.value_pure]
    exact (Expr.resolveList_again _ items).map _
  | .variant enumName variant data => by
    simp only [ExprKind.resolve, Traced.value_bind, Traced.value_pure]
    exact (Expr.resolveOption_again _ data).map _
  | .ternary cond thenExpr elseExpr => by
    simp only [ExprKind.resolve, Traced.value_bind, Traced.value_pure]
    exact (cond.resolve_again none).bind
      ((thenExpr.resolve_again expected).bind ((elseExpr.resolve_again expected).map _))
  | .cast expr ty => by
    simp only [ExprKind.resolve, Traced.value_bind, Traced.value_pure]
    exact (expr.resolve_again none).map _

/-- Resolving expressions again changes nothing. -/
theorem Expr.resolveList_again (expected : List Ty) :
    (es : List Expr) →
      Again (Expr.resolveList r env expected es)
        (Expr.resolveList r env expected (Expr.resolveList r env expected es).value)
  | [] => by
    simp only [Expr.resolveList, Traced.value_pure]
    exact .refl _
  | e :: es => by
    simp only [Expr.resolveList, Traced.value_bind, Traced.value_pure]
    exact (e.resolve_again expected.head?).bind ((Expr.resolveList_again expected.tail es).map _)

/-- Resolving the data of a variant again changes nothing. -/
theorem Expr.resolveOption_again (expected : List Ty) :
    (data : Option (List Expr)) →
      Again (Expr.resolveOption r env expected data)
        (Expr.resolveOption r env expected (Expr.resolveOption r env expected data).value)
  | none => by
    simp only [Expr.resolveOption, Traced.value_pure]
    exact .refl _
  | some es => by
    simp only [Expr.resolveOption, Traced.value_bind, Traced.value_pure]
    exact (Expr.resolveList_again expected es).map _

/-- Resolving fields again changes nothing. -/
theorem FieldInit.resolveList_again (target : AggregateTarget) :
    (fields : List FieldInit) →
      Again (FieldInit.resolveList r env target fields)
        (FieldInit.resolveList r env target (FieldInit.resolveList r env target fields).value)
  | [] => by
    simp only [FieldInit.resolveList, Traced.value_pure]
    exact .refl _
  | ⟨name, value⟩ :: fields => by
    simp only [FieldInit.resolveList, Traced.value_bind, Traced.value_pure]
    exact (value.resolve_again _).bind ((FieldInit.resolveList_again target fields).map _)

end

/-- Resolving an optional expression again changes nothing. -/
theorem Expr.resolve?_again (expected : Option Ty) (e : Option Expr) :
    Again (Expr.resolve? r env expected e)
      (Expr.resolve? r env expected (Expr.resolve? r env expected e).value) := by
  cases e with
  | none => exact .refl _
  | some e => exact (e.resolve_again r env expected).map _

end

/-! ## Statements -/

section

variable (r : Registry) (ret : Ty)

mutual

/-- A resolved statement is resolved as before, and the variables after it have the same types. -/
theorem Stmt.resolve_again (env : Env) (isTail : Bool) :
    (s : Stmt) →
      Again (s.resolve r ret env isTail)
        ((s.resolve r ret env isTail).value.1.resolve r ret env isTail)
  | .letVar span name ty mutable init => by
    simp only [Stmt.resolve, Traced.value_bind, Traced.value_pure]
    exact (Expr.resolve?_again r env _ init).map _
  | .assign span target value => by
    simp only [Stmt.resolve, Traced.value_bind, Traced.value_pure]
    exact (target.resolve_again r env none).bind ((value.resolve_again r env _).map _)
  | .ret span value => by
    simp only [Stmt.resolve, Traced.value_bind, Traced.value_pure]
    exact (Expr.resolve?_again r env _ value).map _
  | .ifElse span cond thenBlock elseBlock => by
    simp only [Stmt.resolve, Traced.value_bind, Traced.value_pure]
    exact (cond.resolve_again r env none).bind
      ((thenBlock.resolve_again env).bind ((Block.resolve?_again elseBlock env).map _))
  | .whileLoop span cond body => by
    simp only [Stmt.resolve, Traced.value_bind, Traced.value_pure]
    exact (cond.resolve_again r env none).bind ((body.resolve_again env).map _)
  | .forEach span var iterable body => by
    simp only [Stmt.resolve, Traced.value_bind, Traced.value_pure]
    exact (iterable.resolve_again r env none).bind ((body.resolve_again _).map _)
  | .switch span scrutinee cases => by
    simp only [Stmt.resolve, Traced.value_bind, Traced.value_pure]
    exact (scrutinee.resolve_again r env none).bind
      ((SwitchCase.resolveList_again env _ cases).map _)
  | .breakLoop span | .continueLoop span => by
    simp only [Stmt.resolve, Traced.value_pure]
    exact .refl _
  | .expr e => by
    simp only [Stmt.resolve, Traced.value_bind, Traced.value_pure]
    exact (e.resolve_again r env _).map _
  | .block b => by
    simp only [Stmt.resolve, Traced.value_bind, Traced.value_pure]
    exact (b.resolve_again env).map _

/-- Resolving statements again changes nothing. -/
theorem Stmt.resolveList_again (env : Env) :
    (ss : List Stmt) →
      Again (Stmt.resolveList r ret env ss)
        (Stmt.resolveList r ret env (Stmt.resolveList r ret env ss).value)
  | [] => by
    simp only [Stmt.resolveList, Traced.value_pure]
    exact .refl _
  | s :: ss => by
    simp only [Stmt.resolveList, Traced.value_bind, Traced.value_pure]
    exact (s.resolve_again env false).bind ((Stmt.resolveList_again _ ss).map _)

/-- Resolving a block again changes nothing. -/
theorem Block.resolve_again :
    (b : Block) → (env : Env) →
      Again (b.resolve r ret env) ((b.resolve r ret env).value.resolve r ret env)
  | ⟨span, stmts⟩, env => by
    simp only [Block.resolve, Traced.value_bind, Traced.value_pure]
    exact (Stmt.resolveList_again env.push stmts).map _

/-- Resolving an optional block again changes nothing. -/
theorem Block.resolve?_again :
    (b : Option Block) → (env : Env) →
      Again (Block.resolve? r ret env b)
        (Block.resolve? r ret env (Block.resolve? r ret env b).value)
  | none, _ => by
    simp only [Block.resolve?, Traced.value_pure]
    exact .refl _
  | some b, env => by
    simp only [Block.resolve?, Traced.value_bind, Traced.value_pure]
    exact (b.resolve_again env).map _

/-- Resolving the cases of a switch again changes nothing. -/
theorem SwitchCase.resolveList_again (env : Env) (scrutineeTy : Option Ty) :
    (cases : List SwitchCase) →
      Again (SwitchCase.resolveList r ret env scrutineeTy cases)
        (SwitchCase.resolveList r ret env scrutineeTy
          (SwitchCase.resolveList r ret env scrutineeTy cases).value)
  | [] => by
    simp only [SwitchCase.resolveList, Traced.value_pure]
    exact .refl _
  | ⟨span, value, body, fallthrough⟩ :: cases => by
    simp only [SwitchCase.resolveList, Traced.value_bind, Traced.value_pure]
    exact (Expr.resolve?_again r env scrutineeTy value).bind
      ((Stmt.resolveList_again env.push body).bind
        ((SwitchCase.resolveList_again env scrutineeTy cases).map _))

end

/-- Resolution leaves no body without statements that had some. -/
theorem Stmt.resolveBody_ne_nil (env : Env) {ss : List Stmt} (hss : ss ≠ []) :
    (Stmt.resolveBody r ret env ss).value ≠ [] := by
  fun_cases Stmt.resolveBody r ret env ss with
  | case1 => exact absurd rfl hss
  | case2 | case3 => exact List.cons_ne_nil _ _

/-- Resolving the body of a function again changes nothing. -/
theorem Stmt.resolveBody_again (env : Env) (ss : List Stmt) :
    Again (Stmt.resolveBody r ret env ss)
      (Stmt.resolveBody r ret env (Stmt.resolveBody r ret env ss).value) := by
  fun_induction Stmt.resolveBody r ret env ss with
  | case1 => exact .refl _
  | case2 env s =>
    simp only [Traced.value_bind, Traced.value_pure, Stmt.resolveBody]
    exact (s.resolve_again r ret env _).map _
  | case3 env s ss hss ih =>
    simp only [Traced.value_bind, Traced.value_pure]
    rw [Stmt.resolveBody_cons r env ret _ (Stmt.resolveBody_ne_nil r ret _ hss)]
    exact (s.resolve_again r ret env false).bind ((ih _).map _)

end

/-! ## Programs -/

/-- Resolving a function again changes nothing. -/
theorem FunctionDecl.resolve_again (r : Registry) (owner : Option String) (f : FunctionDecl) :
    Again (f.resolve r owner) ((f.resolve r owner).value.resolve r owner) :=
  (Stmt.resolveBody_again r _ _ f.body.stmts).map _

/-- Resolving a declaration again changes nothing. -/
theorem Decl.resolve_again (r : Registry) (d : Decl) :
    Again (d.resolve r) ((d.resolve r).value.resolve r) := by
  cases d with
  | function f => exact (f.resolve_again r none).map _
  | impl b => exact (Again.mapM (fun f => f.resolve_again r (some b.target)) b.methods).map _
  | _ => exact .refl _

/-- A resolved program is resolved as before: its registry is that of the program. -/
theorem Program.resolve_again (p : Program) : Again p.resolve p.resolve.value.resolve := by
  have hdecls := Again.mapM (Decl.resolve_again (.ofProgram p)) p.decls
  have hsecond : p.resolve.value.resolve = do
      return ⟨← p.resolve.value.decls.mapM (·.resolve (.ofProgram p))⟩ := by
    rw [← Registry.ofProgram_resolve p, ← Program.resolve]
  rw [hsecond]
  exact hdecls.map Program.mk

/-! ## Strict resolution -/

/-- The error of a strict resolution. -/
def Program.firstFault? (p : Program) : Option Fault :=
  (p.resolveWith true).error

/-- A strict resolution: the annotated program, unless there is an error. -/
def Program.resolveStrict (p : Program) : Except Fault Program :=
  (p.resolveWith true).verdict

/-- The error of a strict resolution is the first of all faults. -/
theorem Program.firstFault?_eq_head? (p : Program) :
    p.firstFault? = (faults p.resolve).head? :=
  foldl_keepFault_strict ..

/-- In either mode a resolved program is resolved to what the program is resolved to. -/
theorem Program.resolveWith_again (p : Program) (strict : Bool) :
    p.resolve.value.resolveWith strict = p.resolveWith strict := by
  have hagain := p.resolve_again
  rw [resolveWith, resolveWith, hagain.value, hagain.faults]

/-- Type resolution is idempotent: a resolved program is left unchanged by another resolution, and
strict resolution of it ends as that of the program itself, with the same first fault or with the
same program. -/
theorem Program.resolve_resolve (p : Program) :
    p.resolve.value.resolve.value = p.resolve.value ∧
      p.resolve.value.firstFault? = p.firstFault? ∧
      p.resolve.value.resolveStrict = p.resolveStrict :=
  ⟨p.resolve_again.value, congrArg Resolution.error (p.resolveWith_again true),
    congrArg Resolution.verdict (p.resolveWith_again true)⟩

end Oxidize
