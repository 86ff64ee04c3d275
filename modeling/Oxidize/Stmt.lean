import Oxidize.Expr

/-!
# Statements

Statements of function bodies. A case of a switch without a value is the default case.
-/

namespace Oxidize

mutual

/-- A sequence of statements with a scope of its own. -/
structure Block where
  span : Span
  stmts : List Stmt

/-- A statement. -/
inductive Stmt where
  | letVar (span : Span) (name : String) (ty : Option Ty) (mutable : Bool) (init : Option Expr)
  | assign (span : Span) (target value : Expr)
  | ret (span : Span) (value : Option Expr)
  | ifElse (span : Span) (cond : Expr) (thenBlock : Block) (elseBlock : Option Block)
  | whileLoop (span : Span) (cond : Expr) (body : Block)
  | forEach (span : Span) (var : String) (iterable : Expr) (body : Block)
  | switch (span : Span) (scrutinee : Expr) (cases : List SwitchCase)
  | breakLoop (span : Span)
  | continueLoop (span : Span)
  | expr (e : Expr)
  | block (b : Block)

/-- One case of a switch. `fallthrough` records what the front end saw at its end. -/
structure SwitchCase where
  span : Span
  value : Option Expr
  body : List Stmt
  fallthrough : Bool

end

namespace Block

/-- A block without a place in the source. -/
def ofStmts (stmts : List Stmt) : Block :=
  ⟨.zero, stmts⟩

end Block

namespace Stmt

/-- A `break`. -/
def isBreak : Stmt → Bool
  | .breakLoop _ => true
  | _ => false

/-- A statement after which control does not go on to the next one. -/
def isJump : Stmt → Bool
  | .breakLoop _ | .continueLoop _ | .ret _ _ => true
  | _ => false

end Stmt

namespace SwitchCase

/-- The last statement of the body is a `break`. -/
def endsWithBreak (c : SwitchCase) : Bool :=
  c.body.getLast?.any Stmt.isBreak

/-- The last statement of the body is a jump. -/
def endsWithJump (c : SwitchCase) : Bool :=
  c.body.getLast?.any Stmt.isJump

/-- A case that falls through exactly when its body does not end with a jump. -/
def ofBody (value : Option Expr) (body : List Stmt) : SwitchCase :=
  let c : SwitchCase := ⟨.zero, value, body, false⟩
  { c with fallthrough := !c.endsWithJump }

end SwitchCase

end Oxidize
