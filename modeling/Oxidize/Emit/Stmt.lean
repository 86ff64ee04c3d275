import Oxidize.Emit.Expr

/-!
# Statements in the emitted source

`Stmt.emit` appends the lines of a statement to what has been emitted. Bindings are numbered on the
way exactly as the usage analysis numbers them, so a declaration finds out whether it has to be
mutable by its number. A switch becomes a `match` with one arm for each case: a `break` at the end
of a case is dropped, a case that falls through gets an arm of its own all the same, and default
arms come last.
-/

namespace Oxidize

/-- What has been emitted of a function body. -/
structure Emission where
  bindings : Bindings
  /-- The reads written so far, in order. -/
  reads : List Read
  /-- How many levels the next line is indented. -/
  indent : Nat
  lines : List String
  /-- How many cases of switches fall through. -/
  fallthroughs : Nat
  notes : List Note

/-- Emission of statements. What has been emitted is known also where it fails. -/
abbrev Emitting := EStateM PendingLiteral Emission

/-- Spaces of the given level of indentation. -/
def indentation (level : Nat) : String :=
  String.ofList (List.replicate (4 * level) ' ')

namespace Emitting

/-- The bindings at this point. -/
def bindings : Emitting Bindings := do
  return (← get).bindings

/-- An expression rendered at this point. -/
def rendering {α : Type} (x : Rendering α) : Emitting α := fun s =>
  match x.run s.reads with
  | .ok (a, reads) => .ok a { s with reads := reads }
  | .error e => .error e { s with notes := s.notes ++ [.pendingLiteral] }

/-- One more line. Reference: `FnEmitter.line`. -/
def line (text : String) : Emitting Unit :=
  modify fun s => { s with lines := s.lines ++ [indentation s.indent ++ text] }

/-- Several more lines. -/
def append (lines : List String) : Emitting Unit :=
  modify fun s => { s with lines := s.lines ++ lines }

/-- One more note. -/
def note (n : Note) : Emitting Unit :=
  modify fun s => { s with notes := s.notes ++ [n] }

/-- A variable declared at this point, with its number. -/
def declare (name : String) : Emitting BindingId := do
  let b ← bindings
  modify fun s => { s with bindings := s.bindings.declare name }
  return b.next

/-- Emission one level deeper. -/
def indented (x : Emitting Unit) : Emitting Unit := do
  modify fun s => { s with indent := s.indent + 1 }
  x
  modify fun s => { s with indent := s.indent - 1 }

/-- Emission in a frame of its own. -/
def framed (x : Emitting Unit) : Emitting Unit := do
  modify fun s => { s with bindings := s.bindings.push }
  x
  modify fun s => { s with bindings := s.bindings.pop }

/-- The lines that an emission appends, kept apart from what has been emitted. -/
def captured (x : Emitting Unit) : Emitting (List String) := do
  let before := (← get).lines
  modify fun s => { s with lines := [] }
  x
  let lines := (← get).lines
  modify fun s => { s with lines := before }
  return lines

end Emitting

open Emitting (rendering line append note declare indented framed captured)

/-- The keyword of a mutable declaration under a condition. -/
def mutText (b : Bool) : String :=
  if b then "mut " else ""

/-- An expression in the given position at this point. -/
def emitExpr (cx : FnContext) (pos : ReadPosition) (e : Expr) : Emitting String := do
  rendering (e.render cx (← Emitting.bindings) pos)

/-- An expression that flows into a place of the expected type, at this point. -/
def emitValue (cx : FnContext) (expected : Option Ty) (e : Expr) : Emitting String := do
  rendering (e.renderValue cx (← Emitting.bindings) expected)

/-- The target of an assignment. A bare name is written, not read. Reference: the assignments of
`FnEmitter.stmt`. -/
def emitTarget (cx : FnContext) (target : Expr) : Emitting String :=
  match target.ident? with
  | some name => return Name.value name
  | none => emitExpr cx .borrow target

/-- The text that a loop runs over. Reference: the loops of `FnEmitter.stmt`. -/
def iterationText (cx : FnContext) (iterable : Expr) (code : String) : String :=
  let code := receiverText iterable code
  match (cx.registry.normalize iterable.tyOrVoid).stripRefs with
  | .seq elem =>
    if cx.copy.isDuplicable elem then code ++ ".iter().copied()" else code ++ ".iter().cloned()"
  | t => if t.isText then code ++ ".chars().map(|c| c.to_string())" else code

/-- The text of a number as a pattern. Where the matched value is a float, so is the pattern. -/
def numberPattern (scrutineeTy : Ty) (x : Binary64) : String :=
  if scrutineeTy.isFloat && x.isFinite && !x.text.toList.contains '.' then x.text ++ ".0"
  else x.text

/-- The pattern of a variant without data. -/
def variantPattern (r : Registry) (enumName variant : String) : String :=
  let path := variantPath enumName variant
  match r.variantShape? enumName variant with
  | some (.tuple (_ :: _)) => path ++ "(..)"
  | some (.struct (_ :: _)) => path ++ " \x7b .. \x7d"
  | _ => path

/-- The pattern of a case. What is no literal and no plain variant is compared in a guard. Reference:
`FnEmitter.pattern`. -/
def emitPattern (cx : FnContext) (scrutineeTy : Ty) (value : Expr) : Emitting String :=
  match value.kind with
  | .literal (.number x) => return numberPattern scrutineeTy x
  | .literal (.text s) => return Text.quote s
  | .literal (.bool b) => return boolText b
  | .variant enumName variant none => return variantPattern cx.registry enumName variant
  | _ => do
    let code ← emitExpr cx .borrow value
    return "x if x == " ++ code

/-- The pattern of a case with or without a value. -/
def emitCasePattern (cx : FnContext) (scrutineeTy : Ty) : Option Expr → Emitting String
  | some value => emitPattern cx scrutineeTy value
  | none => return "_"

/-- The head of a `match`. Text that owns its buffer is matched by what it holds. Reference: `head` in
`FnEmitter.switch`. -/
def scrutineeText (scrutineeTy : Ty) (scrutinee : Expr) (code : String) : String :=
  if scrutineeTy.isOwnedText then receiverText scrutinee code ++ ".as_str()" else code

/-- The lines of an arm of a `match`, under what kind of arm it is. -/
structure Arm where
  isDefault : Bool
  lines : List String

/-- A record of a case that falls through. -/
def noteFallthrough (pattern : String) : Emitting Unit := do
  modify fun s => { s with fallthroughs := s.fallthroughs + 1 }
  note (.fallsThrough pattern)

/-- Whether nothing is left of the body of a case once a `break` at its end is dropped. Reference: the
test for an empty body in `FnEmitter.switch`. -/
def isEmptyCase : List Stmt → Bool
  | [] => true
  | [.breakLoop _] => true
  | _ => false

mutual

/-- The lines of a statement. Reference: `FnEmitter.stmt`. -/
def Stmt.emit (cx : FnContext) : Stmt → Emitting Unit
  | .letVar _ name ty mutable init => do
    let value ← match init with
      | some e => do
        let code ← emitValue cx ty e
        pure (" = " ++ code)
      | none => pure ""
    let id ← declare name
    let ascription := ty.elim "" fun t => ": " ++ t.text .loc
    line ("let " ++ mutText (mutable || cx.usage.needsMut id) ++ Name.value name ++ ascription ++
      value ++ ";")
  | .assign _ target value => do
    let place ← emitTarget cx target
    let code ← emitValue cx target.ty value
    line (place ++ " = " ++ code ++ ";")
  | .ret _ (some value) => do
    let code ← emitValue cx (some cx.ret) value
    line ("return " ++ code ++ ";")
  | .ret _ none => line "return;"
  | .ifElse _ cond thenBlock elseBlock => do
    let code ← emitExpr cx .borrow cond
    line ("if " ++ code ++ " \x7b")
    thenBlock.emit cx
    Block.emitElse cx elseBlock
    line "\x7d"
  | .whileLoop _ cond body => do
    let code ← emitExpr cx .borrow cond
    line ("while " ++ code ++ " \x7b")
    body.emit cx
    line "\x7d"
  | .forEach _ var iterable body => do
    let code ← emitExpr cx .borrow iterable
    framed do
      let id ← declare var
      line ("for " ++ mutText (cx.usage.needsMut id) ++ Name.value var ++ " in " ++
        iterationText cx iterable code ++ " \x7b")
      body.emit cx
    line "\x7d"
  | .switch _ scrutinee cases => do
    let scrutineeTy := (cx.registry.normalize scrutinee.tyOrVoid).stripRefs
    let code ← emitExpr cx .borrow scrutinee
    line ("match " ++ scrutineeText scrutineeTy scrutinee code ++ " \x7b")
    indented do
      let arms ← SwitchCase.emitArms cx scrutineeTy cases
      append ((arms.filter (!·.isDefault)).flatMap (·.lines))
      append ((arms.filter (·.isDefault)).flatMap (·.lines))
      if arms.any (·.isDefault) then pure () else line "_ => \x7b\x7d"
    line "\x7d"
  | .breakLoop _ => line "break;"
  | .continueLoop _ => line "continue;"
  | .expr e => do
    let code ← emitExpr cx .value e
    line (code ++ ";")
  | .block body => do
    line "\x7b"
    body.emit cx
    line "\x7d"

/-- The lines of statements. -/
def Stmt.emitList (cx : FnContext) : List Stmt → Emitting Unit
  | [] => pure ()
  | s :: ss => do
    s.emit cx
    Stmt.emitList cx ss

/-- The lines inside a block. Reference: `FnEmitter.block`. -/
def Block.emit (cx : FnContext) : Block → Emitting Unit
  | ⟨_, stmts⟩ => indented (framed (Stmt.emitList cx stmts))

/-- The lines after the first block of a conditional. An alternative that is a single conditional
continues the chain. Reference: the loop of `FnEmitter.if_chain`. -/
def Block.emitElse (cx : FnContext) : Option Block → Emitting Unit
  | none => pure ()
  | some ⟨_, [.ifElse _ cond thenBlock elseBlock]⟩ => do
    let code ← emitExpr cx .borrow cond
    line ("\x7d else if " ++ code ++ " \x7b")
    thenBlock.emit cx
    Block.emitElse cx elseBlock
  | some ⟨_, stmts⟩ => do
    line "\x7d else \x7b"
    indented (framed (Stmt.emitList cx stmts))

/-- The arms of the cases of a switch, in order. Reference: the loop of `FnEmitter.switch`. -/
def SwitchCase.emitArms (cx : FnContext) (scrutineeTy : Ty) :
    List SwitchCase → Emitting (List Arm)
  | [] => return []
  | c@⟨_, value, body, _⟩ :: cases => do
    let pattern ← emitCasePattern cx scrutineeTy value
    if !c.endsWithJump then noteFallthrough pattern
    let lines ← captured do
      if isEmptyCase body then line (pattern ++ " => \x7b\x7d")
      else do
        line (pattern ++ " => \x7b")
        indented (framed (Stmt.emitCaseBody cx body))
        line "\x7d"
    let arms ← SwitchCase.emitArms cx scrutineeTy cases
    return ⟨value.isNone, lines⟩ :: arms

/-- The lines of the body of a case, without a `break` at its end. -/
def Stmt.emitCaseBody (cx : FnContext) : List Stmt → Emitting Unit
  | [] => pure ()
  | [.breakLoop _] => pure ()
  | s :: ss => do
    s.emit cx
    Stmt.emitCaseBody cx ss

end

/-- Whether an expression is a builtin that stands as a statement. Reference:
`is_statement_builtin`. -/
def isStatementBuiltin (cx : FnContext) (b : Bindings) (e : Expr) : Bool :=
  match e.kind with
  | .methodCall object method ns _ objectTy =>
    let dispatch := match namespaceOf? ns object b.isLocal with
      | some ns => Dispatch.of? (some ns) none method
      | none => Dispatch.onValue? (objectTy? cx.registry objectTy object) method
    dispatch.any (·.rule.isStatement)
  | _ => false

/-- The last statement of a function with a result: a returned or plain expression is written bare.
Reference: `FnEmitter.tail`. -/
def Stmt.emitTail (cx : FnContext) (s : Stmt) : Emitting Unit := do
  match s with
  | .ret _ (some value) => line (← emitValue cx (some cx.ret) value)
  | .expr e =>
    if isStatementBuiltin cx (← Emitting.bindings) e then s.emit cx
    else line (← emitValue cx (some cx.ret) e)
  | s => s.emit cx

/-- The statements of a function body. Reference: `function_body`. -/
def Stmt.emitBody (cx : FnContext) : List Stmt → Emitting Unit
  | [] => pure ()
  | [s] => if cx.ret.isVoid then s.emit cx else s.emitTail cx
  | s :: ss => do
    s.emit cx
    Stmt.emitBody cx ss

end Oxidize
