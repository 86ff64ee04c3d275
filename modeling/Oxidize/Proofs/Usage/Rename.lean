import Oxidize.Proofs.Nodes
import Oxidize.Proofs.Usage.Walk

/-!
# Renaming a variable in the text

Renaming is defined on the text alone, without numbers: `Stmt.renameList` replaces a name up to where
it is declared anew, and `Stmt.renameBinderList` renames one declaration together with the text it
is visible in. `Stmt.bindersList` lists the variables that are declared, and renaming one of them
changes that name and no other (`Stmt.bindersList_renameBinder`).
-/

namespace Oxidize

/-! ## Names in expressions -/

/-- The name, or the new name in place of the old one. -/
def renamed (old new name : String) : String :=
  if name = old then new else name

mutual

/-- The expression with a variable renamed. -/
def Expr.rename (old new : String) : Expr → Expr
  | ⟨span, kind, ty⟩ => ⟨span, kind.rename old new, ty⟩

/-- The kind of an expression with a variable renamed. -/
def ExprKind.rename (old new : String) : ExprKind → ExprKind
  | .literal value => .literal value
  | .ident name => .ident (renamed old new name)
  | .unary op expr => .unary op (expr.rename old new)
  | .binary op left right => .binary op (left.rename old new) (right.rename old new)
  | .call callee args => .call callee (Expr.renameList old new args)
  | .methodCall object method ns args objectTy =>
    .methodCall (object.rename old new) method ns (Expr.renameList old new args) objectTy
  | .index object index => .index (object.rename old new) (index.rename old new)
  | .field object field objectTy => .field (object.rename old new) field objectTy
  | .array items => .array (Expr.renameList old new items)
  | .aggregate target fields => .aggregate target (FieldInit.renameList old new fields)
  | .tuple items => .tuple (Expr.renameList old new items)
  | .variant enumName variant none => .variant enumName variant none
  | .variant enumName variant (some data) =>
    .variant enumName variant (some (Expr.renameList old new data))
  | .ternary cond thenExpr elseExpr =>
    .ternary (cond.rename old new) (thenExpr.rename old new) (elseExpr.rename old new)
  | .cast expr ty => .cast (expr.rename old new) ty

/-- Expressions with a variable renamed. -/
def Expr.renameList (old new : String) : List Expr → List Expr
  | [] => []
  | e :: es => e.rename old new :: Expr.renameList old new es

/-- The fields of an aggregate literal with a variable renamed. -/
def FieldInit.renameList (old new : String) : List FieldInit → List FieldInit
  | [] => []
  | ⟨name, value⟩ :: fields => ⟨name, value.rename old new⟩ :: FieldInit.renameList old new fields

end

/-- None of the expressions is the given name. -/
def Avoids (name : String) (nodes : List Expr) : Prop :=
  ∀ n ∈ nodes, n.ident? ≠ some name

instance (name : String) (nodes : List Expr) : Decidable (Avoids name nodes) :=
  inferInstanceAs (Decidable (∀ n ∈ nodes, n.ident? ≠ some name))

/-- Without nodes every name is avoided. -/
@[simp] theorem avoids_nil (name : String) : Avoids name [] :=
  List.forall_mem_nil _

/-- Nodes in a row avoid a name exactly if both parts do. -/
@[simp] theorem avoids_append {name : String} {a b : List Expr} :
    Avoids name (a ++ b) ↔ Avoids name a ∧ Avoids name b :=
  List.forall_mem_append

/-- The first node is not the name, and the others avoid it. -/
@[simp] theorem avoids_cons {name : String} {e : Expr} {nodes : List Expr} :
    Avoids name (e :: nodes) ↔ e.ident? ≠ some name ∧ Avoids name nodes :=
  List.forall_mem_cons

namespace Expr

variable (old new : String) (e : Expr)

/-- Renaming keeps annotations. -/
@[simp] theorem ty_rename : (e.rename old new).ty = e.ty := by
  obtain ⟨span, kind, ty⟩ := e
  rw [rename]

/-- Renaming keeps the type, also where `void` stands for a missing one. -/
theorem tyOrVoid_rename : (e.rename old new).tyOrVoid = e.tyOrVoid := by
  rw [tyOrVoid, ty_rename, tyOrVoid]

/-- An identifier is renamed as its name is. -/
@[simp] theorem ident?_rename :
    (e.rename old new).ident? = e.ident?.map (renamed old new) := by
  obtain ⟨span, kind, ty⟩ := e
  rw [rename]
  fun_cases ExprKind.rename old new kind <;> rfl

/-- Renaming does not touch text literals. -/
@[simp] theorem isTextLiteral_rename : (e.rename old new).isTextLiteral = e.isTextLiteral := by
  obtain ⟨span, kind, ty⟩ := e
  rw [rename]
  fun_cases ExprKind.rename old new kind <;> rfl

/-- The variable that a place starts with is renamed. -/
theorem root?_rename : (e : Expr) → (e.rename old new).root? = e.root?.map (renamed old new)
  | ⟨_, .ident name, _⟩ => by
    rw [rename, ExprKind.rename, root?, root?, Option.map_some]
  | ⟨_, .field object _ _, _⟩ | ⟨_, .index object _, _⟩ => by
    rw [rename, ExprKind.rename, root?, root?]
    exact root?_rename object
  | ⟨_, .literal _, _⟩ | ⟨_, .unary _ _, _⟩ | ⟨_, .binary _ _ _, _⟩ | ⟨_, .call _ _, _⟩
  | ⟨_, .methodCall _ _ _ _ _, _⟩ | ⟨_, .array _, _⟩ | ⟨_, .aggregate _ _, _⟩ | ⟨_, .tuple _, _⟩
  | ⟨_, .variant _ _ none, _⟩ | ⟨_, .variant _ _ (some _), _⟩ | ⟨_, .ternary _ _ _, _⟩
  | ⟨_, .cast _ _, _⟩ => by
    simp only [rename, ExprKind.rename, root?, Option.map_none]

end Expr

/-- An expression that avoids a name is not that name. -/
theorem Avoids.ident {name : String} {e : Expr} (h : Avoids name e.nodes) :
    e.ident? ≠ some name := by
  obtain ⟨span, kind, ty⟩ := e
  exact h _ (.head _)

/-- The root of a place is one of the expressions in it. -/
theorem Avoids.root {name : String} : {e : Expr} → Avoids name e.nodes → e.root? ≠ some name
  | ⟨_, .ident _, _⟩, h => h _ (.head _)
  | ⟨_, .field object _ _, _⟩, h => by
    rw [Expr.nodes, ExprKind.nodes, avoids_cons] at h
    rw [Expr.root?]
    exact Avoids.root h.2
  | ⟨_, .index object _, _⟩, h => by
    rw [Expr.nodes, ExprKind.nodes, avoids_cons, avoids_append] at h
    rw [Expr.root?]
    exact Avoids.root h.2.1
  | ⟨_, .literal _, _⟩, _ | ⟨_, .unary _ _, _⟩, _ | ⟨_, .binary _ _ _, _⟩, _ | ⟨_, .call _ _, _⟩, _
  | ⟨_, .methodCall _ _ _ _ _, _⟩, _ | ⟨_, .array _, _⟩, _ | ⟨_, .aggregate _ _, _⟩, _
  | ⟨_, .tuple _, _⟩, _ | ⟨_, .variant _ _ _, _⟩, _ | ⟨_, .ternary _ _ _, _⟩, _
  | ⟨_, .cast _ _, _⟩, _ => by
    simp [Expr.root?]

mutual

/-- To rename a variable to its own name changes nothing. -/
theorem Expr.rename_self (name : String) : (e : Expr) → e.rename name name = e
  | ⟨span, kind, ty⟩ => by rw [Expr.rename, kind.rename_self name]

/-- Renaming to the same name changes no kind of expression. -/
theorem ExprKind.rename_self (name : String) : (kind : ExprKind) → kind.rename name name = kind
  | .literal _ | .variant _ _ none => rfl
  | .ident other => by
    rw [ExprKind.rename, renamed]
    split
    next h => rw [h]
    next => rfl
  | .unary _ expr | .cast expr _ | .field expr _ _ => by
    rw [ExprKind.rename, expr.rename_self name]
  | .binary _ left right | .index left right => by
    rw [ExprKind.rename, left.rename_self name, right.rename_self name]
  | .call _ items | .array items | .tuple items | .variant _ _ (some items) => by
    rw [ExprKind.rename, Expr.renameList_self name items]
  | .methodCall object _ _ args _ => by
    rw [ExprKind.rename, object.rename_self name, Expr.renameList_self name args]
  | .aggregate _ fields => by
    rw [ExprKind.rename, FieldInit.renameList_self name fields]
  | .ternary cond thenExpr elseExpr => by
    rw [ExprKind.rename, cond.rename_self name, thenExpr.rename_self name,
      elseExpr.rename_self name]

/-- Renaming to the same name changes no expression of a list. -/
theorem Expr.renameList_self (name : String) : (es : List Expr) → Expr.renameList name name es = es
  | [] => rfl
  | e :: es => by rw [Expr.renameList, e.rename_self name, Expr.renameList_self name es]

/-- Renaming to the same name changes no field. -/
theorem FieldInit.renameList_self (name : String) :
    (fields : List FieldInit) → FieldInit.renameList name name fields = fields
  | [] => rfl
  | ⟨_, value⟩ :: fields => by
    rw [FieldInit.renameList, value.rename_self name, FieldInit.renameList_self name fields]

end

/-! ## Names that statements declare -/

mutual

/-- The variables that a statement declares, inside it too, in order. -/
def Stmt.binders : Stmt → List String
  | .letVar _ name _ _ _ => [name]
  | .assign _ _ _ | .ret _ _ | .breakLoop _ | .continueLoop _ | .expr _ => []
  | .ifElse _ _ thenBlock elseBlock => thenBlock.binders ++ Block.binders? elseBlock
  | .whileLoop _ _ body | .block body => body.binders
  | .forEach _ var _ body => var :: body.binders
  | .switch _ _ cases => SwitchCase.bindersList cases

/-- The variables that statements declare. -/
def Stmt.bindersList : List Stmt → List String
  | [] => []
  | s :: ss => s.binders ++ Stmt.bindersList ss

/-- The variables that a block declares. -/
def Block.binders : Block → List String
  | ⟨_, stmts⟩ => Stmt.bindersList stmts

/-- The variables that an optional block declares. -/
def Block.binders? : Option Block → List String
  | none => []
  | some body => body.binders

/-- The variables that the cases of a switch declare. -/
def SwitchCase.bindersList : List SwitchCase → List String
  | [] => []
  | ⟨_, _, body, _⟩ :: cases => Stmt.bindersList body ++ SwitchCase.bindersList cases

end

/-! ## Names in statements -/

mutual

/-- The statement with a variable renamed that is declared outside of it. -/
def Stmt.rename (old new : String) : Stmt → Stmt
  | .letVar span name ty mutable init =>
    .letVar span name ty mutable (init.map (·.rename old new))
  | .assign span target value => .assign span (target.rename old new) (value.rename old new)
  | .ret span value => .ret span (value.map (·.rename old new))
  | .ifElse span cond thenBlock elseBlock =>
    .ifElse span (cond.rename old new) (thenBlock.rename old new) (Block.rename? old new elseBlock)
  | .whileLoop span cond body => .whileLoop span (cond.rename old new) (body.rename old new)
  | .forEach span var iterable body =>
    .forEach span var (iterable.rename old new) (if old = var then body else body.rename old new)
  | .switch span scrutinee cases =>
    .switch span (scrutinee.rename old new) (SwitchCase.renameList old new cases)
  | .breakLoop span => .breakLoop span
  | .continueLoop span => .continueLoop span
  | .expr e => .expr (e.rename old new)
  | .block body => .block (body.rename old new)

/-- The statements with a variable renamed, as far as it is not declared anew. -/
def Stmt.renameList (old new : String) : List Stmt → List Stmt
  | [] => []
  | s :: ss =>
    s.rename old new :: if old ∈ s.declares then ss else Stmt.renameList old new ss

/-- The block with a variable renamed. -/
def Block.rename (old new : String) : Block → Block
  | ⟨span, stmts⟩ => ⟨span, Stmt.renameList old new stmts⟩

/-- The optional block with a variable renamed. -/
def Block.rename? (old new : String) : Option Block → Option Block
  | none => none
  | some body => some (body.rename old new)

/-- The cases of a switch with a variable renamed. -/
def SwitchCase.renameList (old new : String) : List SwitchCase → List SwitchCase
  | [] => []
  | ⟨span, value, body, fallthrough⟩ :: cases =>
    ⟨span, value.map (·.rename old new), Stmt.renameList old new body, fallthrough⟩ ::
      SwitchCase.renameList old new cases

end

/-- Renaming to the same name changes no optional expression. -/
theorem Expr.map_rename_self (name : String) (e : Option Expr) :
    e.map (·.rename name name) = e := by
  simp [Expr.rename_self]

mutual

/-- Renaming to the same name changes no statement. -/
theorem Stmt.rename_self (name : String) : (s : Stmt) → s.rename name name = s
  | .letVar _ _ _ _ init => by rw [Stmt.rename, Expr.map_rename_self]
  | .assign _ target value => by rw [Stmt.rename, Expr.rename_self, Expr.rename_self]
  | .ret _ value => by rw [Stmt.rename, Expr.map_rename_self]
  | .ifElse _ cond thenBlock elseBlock => by
    rw [Stmt.rename, Expr.rename_self, thenBlock.rename_self, Block.rename?_self name elseBlock]
  | .whileLoop _ cond body => by rw [Stmt.rename, Expr.rename_self, body.rename_self]
  | .forEach _ var iterable body => by
    rw [Stmt.rename, Expr.rename_self, body.rename_self, ite_self]
  | .switch _ scrutinee cases => by
    rw [Stmt.rename, Expr.rename_self, SwitchCase.renameList_self name cases]
  | .breakLoop _ | .continueLoop _ => rfl
  | .expr e => by rw [Stmt.rename, Expr.rename_self]
  | .block body => by rw [Stmt.rename, body.rename_self]

/-- Renaming to the same name changes no list of statements. -/
theorem Stmt.renameList_self (name : String) : (ss : List Stmt) → Stmt.renameList name name ss = ss
  | [] => rfl
  | s :: ss => by
    rw [Stmt.renameList, s.rename_self name, Stmt.renameList_self name ss, ite_self]

/-- Renaming to the same name changes no block. -/
theorem Block.rename_self (name : String) : (body : Block) → body.rename name name = body
  | ⟨_, stmts⟩ => by rw [Block.rename, Stmt.renameList_self name stmts]

/-- Renaming to the same name changes no optional block. -/
theorem Block.rename?_self (name : String) :
    (body : Option Block) → Block.rename? name name body = body
  | none => rfl
  | some body => by rw [Block.rename?, body.rename_self name]

/-- Renaming to the same name changes no case of a switch. -/
theorem SwitchCase.renameList_self (name : String) :
    (cases : List SwitchCase) → SwitchCase.renameList name name cases = cases
  | [] => rfl
  | ⟨_, value, body, _⟩ :: cases => by
    rw [SwitchCase.renameList, Expr.map_rename_self, Stmt.renameList_self name body,
      SwitchCase.renameList_self name cases]

end

/-! ## One declaration -/

mutual

/-- The statement with the variable renamed that it declares as its `k`-th one, and with it the
occurrences inside the statement that it is visible to. -/
def Stmt.renameBinder (new : String) (k : Nat) : Stmt → Stmt
  | .letVar span name ty mutable init => .letVar span (if k = 0 then new else name) ty mutable init
  | .assign span target value => .assign span target value
  | .ret span value => .ret span value
  | .ifElse span cond thenBlock elseBlock =>
    if k < thenBlock.binders.length then
      .ifElse span cond (thenBlock.renameBinder new k) elseBlock
    else
      .ifElse span cond thenBlock
        (Block.renameBinder? new (k - thenBlock.binders.length) elseBlock)
  | .whileLoop span cond body => .whileLoop span cond (body.renameBinder new k)
  | .forEach span var iterable body =>
    if k = 0 then .forEach span new iterable (body.rename var new)
    else .forEach span var iterable (body.renameBinder new (k - 1))
  | .switch span scrutinee cases => .switch span scrutinee (SwitchCase.renameBinderList new k cases)
  | .breakLoop span => .breakLoop span
  | .continueLoop span => .continueLoop span
  | .expr e => .expr e
  | .block body => .block (body.renameBinder new k)

/-- The statements with the `k`-th variable renamed that they declare. What a statement declares for
those after it is renamed there too. -/
def Stmt.renameBinderList (new : String) (k : Nat) : List Stmt → List Stmt
  | [] => []
  | s :: ss =>
    if k < s.binders.length then
      s.renameBinder new k ::
        match s.declares with
        | [] => ss
        | name :: _ => Stmt.renameList name new ss
    else s :: Stmt.renameBinderList new (k - s.binders.length) ss

/-- The block with the `k`-th variable renamed that it declares. -/
def Block.renameBinder (new : String) (k : Nat) : Block → Block
  | ⟨span, stmts⟩ => ⟨span, Stmt.renameBinderList new k stmts⟩

/-- The optional block with the `k`-th variable renamed that it declares. -/
def Block.renameBinder? (new : String) (k : Nat) : Option Block → Option Block
  | none => none
  | some body => some (body.renameBinder new k)

/-- The cases of a switch with the `k`-th variable renamed that they declare. -/
def SwitchCase.renameBinderList (new : String) (k : Nat) : List SwitchCase → List SwitchCase
  | [] => []
  | ⟨span, value, body, fallthrough⟩ :: cases =>
    if k < (Stmt.bindersList body).length then
      ⟨span, value, Stmt.renameBinderList new k body, fallthrough⟩ :: cases
    else
      ⟨span, value, body, fallthrough⟩ ::
        SwitchCase.renameBinderList new (k - (Stmt.bindersList body).length) cases

end

mutual

/-- Renaming a variable does not touch what a statement declares. -/
theorem Stmt.binders_rename (old new : String) : (s : Stmt) → (s.rename old new).binders = s.binders
  | .letVar _ _ _ _ _ | .assign _ _ _ | .ret _ _ | .breakLoop _ | .continueLoop _ | .expr _ => rfl
  | .ifElse _ _ thenBlock elseBlock => by
    rw [Stmt.rename, Stmt.binders, Stmt.binders, thenBlock.binders_rename,
      Block.binders?_rename old new elseBlock]
  | .whileLoop _ _ body | .block body => by
    rw [Stmt.rename, Stmt.binders, Stmt.binders, body.binders_rename]
  | .forEach _ _ _ body => by
    rw [Stmt.rename, Stmt.binders, Stmt.binders, apply_ite Block.binders, body.binders_rename,
      ite_self]
  | .switch _ _ cases => by
    rw [Stmt.rename, Stmt.binders, Stmt.binders, SwitchCase.bindersList_rename old new cases]

/-- Renaming a variable does not touch what statements declare. -/
theorem Stmt.bindersList_rename (old new : String) :
    (ss : List Stmt) → Stmt.bindersList (Stmt.renameList old new ss) = Stmt.bindersList ss
  | [] => rfl
  | s :: ss => by
    rw [Stmt.renameList, Stmt.bindersList, Stmt.bindersList, s.binders_rename,
      apply_ite Stmt.bindersList, Stmt.bindersList_rename old new ss, ite_self]

/-- Renaming a variable does not touch what a block declares. -/
theorem Block.binders_rename (old new : String) :
    (body : Block) → (body.rename old new).binders = body.binders
  | ⟨_, stmts⟩ => Stmt.bindersList_rename old new stmts

/-- Renaming a variable does not touch what an optional block declares. -/
theorem Block.binders?_rename (old new : String) :
    (body : Option Block) → Block.binders? (Block.rename? old new body) = Block.binders? body
  | none => rfl
  | some body => body.binders_rename old new

/-- Renaming a variable does not touch what the cases of a switch declare. -/
theorem SwitchCase.bindersList_rename (old new : String) : (cases : List SwitchCase) →
    SwitchCase.bindersList (SwitchCase.renameList old new cases) = SwitchCase.bindersList cases
  | [] => rfl
  | ⟨_, _, body, _⟩ :: cases => by
    rw [SwitchCase.renameList, SwitchCase.bindersList, SwitchCase.bindersList,
      Stmt.bindersList_rename old new body, SwitchCase.bindersList_rename old new cases]

end

mutual

/-- Renaming one declaration changes its name and no other. -/
theorem Stmt.binders_renameBinder (new : String) :
    (s : Stmt) → (k : Nat) → (s.renameBinder new k).binders = s.binders.set k new
  | .letVar _ name _ _ _, 0 | .letVar _ name _ _ _, _ + 1 => rfl
  | .assign _ _ _, _ | .ret _ _, _ | .breakLoop _, _ | .continueLoop _, _ | .expr _, _ => rfl
  | .ifElse _ _ thenBlock elseBlock, k => by
    rw [Stmt.renameBinder, Stmt.binders, List.set_append, apply_ite Stmt.binders, Stmt.binders,
      Stmt.binders, thenBlock.binders_renameBinder, Block.binders?_renameBinder new elseBlock]
  | .whileLoop _ _ body, k | .block body, k => by
    rw [Stmt.renameBinder, Stmt.binders, Stmt.binders, body.binders_renameBinder]
  | .forEach _ _ _ body, 0 => by
    rw [Stmt.renameBinder, if_pos rfl, Stmt.binders, Stmt.binders, body.binders_rename]
    rfl
  | .forEach _ _ _ body, k + 1 => by
    rw [Stmt.renameBinder, if_neg (Nat.succ_ne_zero k), Stmt.binders, Stmt.binders,
      Nat.add_sub_cancel, body.binders_renameBinder]
    rfl
  | .switch _ _ cases, k => by
    rw [Stmt.renameBinder, Stmt.binders, Stmt.binders,
      SwitchCase.bindersList_renameBinder new cases]

/-- Renaming a binder among statements changes one of their binders. -/
theorem Stmt.bindersList_renameBinder (new : String) : (ss : List Stmt) → (k : Nat) →
    Stmt.bindersList (Stmt.renameBinderList new k ss) = (Stmt.bindersList ss).set k new
  | [], _ => rfl
  | s :: ss, k => by
    have hrest : Stmt.bindersList (match s.declares with
        | [] => ss
        | name :: _ => Stmt.renameList name new ss) = Stmt.bindersList ss := by
      split
      · rfl
      · exact Stmt.bindersList_rename _ new ss
    rw [Stmt.renameBinderList, Stmt.bindersList, List.set_append, apply_ite Stmt.bindersList,
      Stmt.bindersList, Stmt.bindersList, s.binders_renameBinder, hrest,
      Stmt.bindersList_renameBinder new ss]

/-- Renaming a binder of a block changes one of its binders. -/
theorem Block.binders_renameBinder (new : String) :
    (body : Block) → (k : Nat) → (body.renameBinder new k).binders = body.binders.set k new
  | ⟨_, stmts⟩, k => Stmt.bindersList_renameBinder new stmts k

/-- Renaming a binder of an optional block changes one of its binders. -/
theorem Block.binders?_renameBinder (new : String) : (body : Option Block) → (k : Nat) →
    Block.binders? (Block.renameBinder? new k body) = (Block.binders? body).set k new
  | none, _ => rfl
  | some body, k => body.binders_renameBinder new k

/-- Renaming a binder among the cases of a switch changes one of their binders. -/
theorem SwitchCase.bindersList_renameBinder (new : String) : (cases : List SwitchCase) → (k : Nat) →
    SwitchCase.bindersList (SwitchCase.renameBinderList new k cases) =
      (SwitchCase.bindersList cases).set k new
  | [], _ => rfl
  | ⟨_, _, body, _⟩ :: cases, k => by
    rw [SwitchCase.renameBinderList, SwitchCase.bindersList, List.set_append,
      apply_ite SwitchCase.bindersList, SwitchCase.bindersList, SwitchCase.bindersList,
      Stmt.bindersList_renameBinder new body, SwitchCase.bindersList_renameBinder new cases]

end

namespace Block

variable (body : Block)

/-- The binders of a block are those of its statements. -/
theorem binders_eq : body.binders = Stmt.bindersList body.stmts := by
  cases body
  rfl

/-- A block is renamed statement by statement. -/
theorem stmts_rename (old new : String) :
    (body.rename old new).stmts = Stmt.renameList old new body.stmts := by
  cases body
  rfl

/-- A binder of a block is renamed among its statements. -/
theorem stmts_renameBinder (new : String) (k : Nat) :
    (body.renameBinder new k).stmts = Stmt.renameBinderList new k body.stmts := by
  cases body
  rfl

end Block

end Oxidize
