import Oxidize.Builtin.Dispatch
import Oxidize.Registry
import Oxidize.Scope
import Oxidize.Traced

/-!
# How a function uses its variables

`FunctionDecl.usageEvents` lists what a function does with its variables, in the order of its text:
every declaration, every read with the position it stands in, every write and every change in
place. Variables are told apart by the number of their declaration, so shadowing needs no further
care.
-/

namespace Oxidize

/-- Where a read stands. -/
inductive ReadPosition where
  /-- The value is moved: an argument, an initializer, a result, an element. -/
  | value
  /-- The value is only looked at: a receiver, a compared operand, a condition. -/
  | borrow
deriving DecidableEq, Repr

namespace ReadPosition

/-- The position of both operands of a binary operator. Reference: `of_operands`. -/
def ofOperands (op : BinOp) (left right : Expr) : ReadPosition :=
  if op.isComparison || op.isLogical || op.joinsText left right then .borrow else .value

/-- The position of the arguments of a method call. Reference: `of_method_args`. -/
def ofMethodArgs (ns : Option Namespace) : ReadPosition :=
  if ns == some .console then .borrow else .value

end ReadPosition

/-- What happens to a variable. -/
inductive UsageEvent where
  | declare (name : String) (ty : Ty) (isParam : Bool)
  | read (id : BindingId) (pos : ReadPosition)
  | write (id : BindingId)
  | mutate (id : BindingId)
deriving DecidableEq

namespace UsageEvent

/-- A read of the variable. -/
def isReadOf (id : BindingId) : UsageEvent → Bool
  | .read i _ => i == id
  | _ => false

/-- A read of the variable that only looks at it. -/
def isBorrowOf (id : BindingId) : UsageEvent → Bool
  | .read i .borrow => i == id
  | _ => false

/-- An assignment to the variable. -/
def isWriteOf (id : BindingId) : UsageEvent → Bool
  | .write i => i == id
  | _ => false

/-- A change of the variable in place. -/
def isMutationOf (id : BindingId) : UsageEvent → Bool
  | .mutate i => i == id
  | _ => false

end UsageEvent

/-- A read of the variable with the given name, if there is one. Reference: `Walker.read`. -/
def readEvents (b : Bindings) (name : String) (pos : ReadPosition) : List UsageEvent :=
  match b.lookup? name with
  | some id => [.read id pos]
  | none => []

/-- A change in place of the variable at the root of a place, if there is one. Reference:
`mark_mutated`. -/
def mutationEvents (b : Bindings) (place : Expr) : List UsageEvent :=
  match place.root?.bind b.lookup? with
  | some id => [.mutate id]
  | none => []

/-- Whether a method changes a receiver of the given type. Reference: `Walker.mutates`. -/
def methodMutates (r : Option Registry) (recv : Option Ty) (method : String) : Bool :=
  match Dispatch.onValue? recv method with
  | some d => d.rule.mutatesReceiver
  | none =>
    match r, recv.bind Ty.nominalName? with
    | some r, some name => (r.method? name method).any fun sig => sig.receiver == some .byMut
    | _, _ => false

mutual

/-- What evaluating an expression in the given position does to variables. Reference:
`Walker.expr`. -/
def Expr.usage (r : Option Registry) (b : Bindings) (pos : ReadPosition) :
    Expr → List UsageEvent
  | ⟨_, .literal _, _⟩ => []
  | ⟨_, .ident name, _⟩ => readEvents b name pos
  | ⟨_, .unary _ expr, _⟩ => expr.usage r b .value
  | ⟨_, .binary op left right, _⟩ =>
    let pos := ReadPosition.ofOperands op left right
    left.usage r b pos ++ right.usage r b pos
  | ⟨_, .call _ args, _⟩ => Expr.usageList r b .value args
  | ⟨_, .methodCall object method ns args objectTy, _⟩ =>
    match namespaceOf? ns object b.isLocal with
    | some ns => Expr.usageList r b (.ofMethodArgs (some ns)) args
    | none =>
      (if methodMutates r (objectTy <|> object.ty) method then mutationEvents b object else []) ++
        (object.usage r b .borrow ++ Expr.usageList r b (.ofMethodArgs none) args)
  | ⟨_, .index object index, _⟩ => object.usage r b .borrow ++ index.usage r b .value
  | ⟨_, .field object _ _, _⟩ => object.usage r b .borrow
  | ⟨_, .array items, _⟩ => Expr.usageList r b .value items
  | ⟨_, .aggregate _ fields, _⟩ => FieldInit.usageList r b fields
  | ⟨_, .tuple items, _⟩ => Expr.usageList r b .value items
  | ⟨_, .variant _ _ none, _⟩ => []
  | ⟨_, .variant _ _ (some data), _⟩ => Expr.usageList r b .value data
  | ⟨_, .ternary cond thenExpr elseExpr, _⟩ =>
    cond.usage r b .borrow ++ (thenExpr.usage r b pos ++ elseExpr.usage r b pos)
  | ⟨_, .cast expr _, _⟩ => expr.usage r b .value

/-- What evaluating expressions from left to right does to variables. -/
def Expr.usageList (r : Option Registry) (b : Bindings) (pos : ReadPosition) :
    List Expr → List UsageEvent
  | [] => []
  | e :: es => e.usage r b pos ++ Expr.usageList r b pos es

/-- What evaluating the fields of an aggregate literal does to variables. -/
def FieldInit.usageList (r : Option Registry) (b : Bindings) : List FieldInit → List UsageEvent
  | [] => []
  | ⟨_, value⟩ :: fields => value.usage r b .value ++ FieldInit.usageList r b fields

end

/-- What evaluating an optional expression does to variables. -/
def Expr.usage? (r : Option Registry) (b : Bindings) (pos : ReadPosition) :
    Option Expr → List UsageEvent
  | none => []
  | some e => e.usage r b pos

/-- What assigning to a place does to variables: a bare name is written, and any other place reads
its root and changes it in place. Reference: `Walker.place`. -/
def Expr.placeUsage (r : Option Registry) (b : Bindings) (target : Expr) : List UsageEvent :=
  match target.ident? with
  | some name =>
    match b.lookup? name with
    | some id => [.write id]
    | none => []
  | none => mutationEvents b target ++ target.usage r b .borrow

/-- The bindings after what happened so far. -/
abbrev Walking := Traced UsageEvent Bindings

/-- A variable declared. Reference: `Walker.declare`. -/
def Bindings.walkDeclare (b : Bindings) (name : String) (ty : Ty) (isParam : Bool) : Walking := do
  .tell (.declare name ty isParam)
  return b.declare name

mutual

/-- What a statement does to variables, and the bindings after it. Reference: `Walker.stmt`. -/
def Stmt.usage (r : Option Registry) (b : Bindings) : Stmt → Walking
  | .letVar _ name ty _ init => do
    .tellAll (Expr.usage? r b .value init)
    b.walkDeclare name ((ty <|> init.bind (·.ty)).getD .void) false
  | .assign _ target value => do
    .tellAll (target.placeUsage r b)
    .tellAll (value.usage r b .value)
    return b
  | .ret _ value => do
    .tellAll (Expr.usage? r b .value value)
    return b
  | .ifElse _ cond thenBlock elseBlock => do
    .tellAll (cond.usage r b .borrow)
    let b ← thenBlock.usage r b
    Block.usage? r b elseBlock
  | .whileLoop _ cond body => do
    .tellAll (cond.usage r b .borrow)
    body.usage r b
  | .forEach _ var iterable body => do
    .tellAll (iterable.usage r b .borrow)
    let b ← b.push.walkDeclare var iterable.tyOrVoid.loopElement false
    let b ← body.usage r b
    return b.pop
  | .switch _ scrutinee cases => do
    .tellAll (scrutinee.usage r b .borrow)
    SwitchCase.usageList r b cases
  | .breakLoop _ | .continueLoop _ => return b
  | .expr e => do
    .tellAll (e.usage r b .value)
    return b
  | .block body => body.usage r b

/-- What statements do to variables one after the other. Reference: `Walker.stmts`. -/
def Stmt.usageList (r : Option Registry) (b : Bindings) : List Stmt → Walking
  | [] => return b
  | s :: ss => do
    let b ← s.usage r b
    Stmt.usageList r b ss

/-- What a block does to variables, in a frame of its own. Reference: `Walker.block`. -/
def Block.usage (r : Option Registry) (b : Bindings) : Block → Walking
  | ⟨_, stmts⟩ => do
    let b ← Stmt.usageList r b.push stmts
    return b.pop

/-- What an optional block does to variables. -/
def Block.usage? (r : Option Registry) (b : Bindings) : Option Block → Walking
  | none => return b
  | some body => body.usage r b

/-- What the cases of a switch do to variables, each in a frame of its own. Reference: the switches of
`Walker.stmt`. -/
def SwitchCase.usageList (r : Option Registry) (b : Bindings) : List SwitchCase → Walking
  | [] => return b
  | ⟨_, value, body, _⟩ :: cases => do
    .tellAll (Expr.usage? r b .borrow value)
    let b ← Stmt.usageList r b.push body
    SwitchCase.usageList r b.pop cases

end

/-- The type that counting gives the receiver of a method. Reference: the receiver in
`analyze_function`. -/
def Receiver.ty : Receiver → Ty
  | .byRef | .byMut => .ref (.aggregate "Self") false
  | .byValue => .aggregate "Self"

namespace FunctionDecl

/-- The declarations that the signature of a function makes: its receiver, then its parameters. -/
def signatureVars (f : FunctionDecl) : List (String × Ty) :=
  (f.receiver.map fun recv => (receiverName, recv.ty)).toList ++ f.params.map fun p => (p.name, p.ty)

/-- The bindings at the start of the body. Reference: `signature_scopes`. -/
def signatureBindings (f : FunctionDecl) : Bindings :=
  f.signatureVars.foldl (fun b v => b.declare v.1) .empty

/-- What a function does to its variables, in order. Reference: the walk of `analyze_function`. -/
def usageEvents (r : Option Registry) (f : FunctionDecl) : List UsageEvent :=
  f.signatureVars.map (fun v => .declare v.1 v.2 true) ++
    (Stmt.usageList r f.signatureBindings f.body.stmts).trace

end FunctionDecl

end Oxidize
