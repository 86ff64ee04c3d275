import Oxidize.Program

/-!
# The expressions inside a function

`FunctionDecl.nodes` lists every expression that occurs in the body of a function, at any depth, an
expression before its parts and otherwise in the order of the text. A property of a function that
speaks about the expressions in it quantifies over this list.
-/

namespace Oxidize

mutual

/-- An expression and the expressions inside it. -/
def Expr.nodes : Expr → List Expr
  | ⟨span, kind, ty⟩ => ⟨span, kind, ty⟩ :: kind.nodes

/-- The expressions inside an expression of the given kind. -/
def ExprKind.nodes : ExprKind → List Expr
  | .literal _ | .ident _ => []
  | .unary _ expr | .cast expr _ => expr.nodes
  | .binary _ left right => left.nodes ++ right.nodes
  | .call _ args => Expr.nodesList args
  | .methodCall object _ _ args _ => object.nodes ++ Expr.nodesList args
  | .index object index => object.nodes ++ index.nodes
  | .field object _ _ => object.nodes
  | .array items | .tuple items => Expr.nodesList items
  | .aggregate _ fields => FieldInit.nodesList fields
  | .variant _ _ none => []
  | .variant _ _ (some data) => Expr.nodesList data
  | .ternary cond thenExpr elseExpr => cond.nodes ++ (thenExpr.nodes ++ elseExpr.nodes)

/-- The expressions inside a list of expressions, the members included. -/
def Expr.nodesList : List Expr → List Expr
  | [] => []
  | e :: es => e.nodes ++ Expr.nodesList es

/-- The expressions inside the fields of an aggregate literal. -/
def FieldInit.nodesList : List FieldInit → List Expr
  | [] => []
  | ⟨_, value⟩ :: fields => value.nodes ++ FieldInit.nodesList fields

end

/-- The expressions inside an optional expression. -/
def Expr.nodes? (e : Option Expr) : List Expr :=
  e.elim [] Expr.nodes

mutual

/-- The expressions inside a statement. -/
def Stmt.nodes : Stmt → List Expr
  | .letVar _ _ _ _ init => Expr.nodes? init
  | .assign _ target value => target.nodes ++ value.nodes
  | .ret _ value => Expr.nodes? value
  | .ifElse _ cond thenBlock elseBlock => cond.nodes ++ (thenBlock.nodes ++ Block.nodes? elseBlock)
  | .whileLoop _ cond body => cond.nodes ++ body.nodes
  | .forEach _ _ iterable body => iterable.nodes ++ body.nodes
  | .switch _ scrutinee cases => scrutinee.nodes ++ SwitchCase.nodesList cases
  | .breakLoop _ | .continueLoop _ => []
  | .expr e => e.nodes
  | .block body => body.nodes

/-- The expressions inside statements. -/
def Stmt.nodesList : List Stmt → List Expr
  | [] => []
  | s :: ss => s.nodes ++ Stmt.nodesList ss

/-- The expressions inside a block. -/
def Block.nodes : Block → List Expr
  | ⟨_, stmts⟩ => Stmt.nodesList stmts

/-- The expressions inside an optional block. -/
def Block.nodes? : Option Block → List Expr
  | none => []
  | some body => body.nodes

/-- The expressions inside the cases of a switch. -/
def SwitchCase.nodesList : List SwitchCase → List Expr
  | [] => []
  | ⟨_, value, body, _⟩ :: cases =>
    Expr.nodes? value ++ (Stmt.nodesList body ++ SwitchCase.nodesList cases)

end

/-- The expressions inside the body of a function. -/
def FunctionDecl.nodes (f : FunctionDecl) : List Expr :=
  Stmt.nodesList f.body.stmts

end Oxidize
