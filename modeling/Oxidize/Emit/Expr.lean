import Oxidize.Emit.Literal
import Oxidize.Emit.TypeText
import Oxidize.Typing.Resolve
import Oxidize.Usage.Report

/-!
# Expressions in the emitted source

`Expr.render` writes an expression of a resolved function. It keeps the list of the reads it wrote,
since a variable that needs duplication is cloned by every read in value position except its last
one, and which read is the last follows from how many the usage report counts.

Rendering fails only on an aggregate literal without a target.
-/

namespace Oxidize

/-- What rendering a function body knows beforehand. -/
structure FnContext where
  registry : Registry
  copy : CopySet
  usage : UsageReport
  /-- The normalized result type. -/
  ret : Ty

/-- A read of a variable that has been written. -/
structure Read where
  id : BindingId
  pos : ReadPosition
  cloned : Bool
deriving DecidableEq, Repr

/-- Rendering of expressions: the reads written so far, in order. -/
abbrev Rendering := StateT (List Read) (Except PendingLiteral)

/-- An operator, a cast or a conditional. Reference: `is_compound`. -/
def Expr.isCompound (e : Expr) : Bool :=
  match e.kind with
  | .binary _ _ _ | .unary _ _ | .cast _ _ | .ternary _ _ _ => true
  | _ => false

/-- A variable, a field or an element. Reference: `is_place` in `FnEmitter.coerce`. -/
def Expr.isPlace (e : Expr) : Bool :=
  match e.kind with
  | .ident _ | .field _ _ _ | .index _ _ => true
  | _ => false

/-- Text in parentheses under a condition. -/
def parenthesizeIf (b : Bool) (code : String) : String :=
  if b then "(" ++ code ++ ")" else code

/-- The text of an expression as the receiver of a method or field. Reference: `receiver`. -/
def receiverText (e : Expr) (code : String) : String :=
  parenthesizeIf (e.isCompound || code.toList.head? == some '-') code

/-- The text of an expression as the operand of a unary operator or cast. Reference: `operand`. -/
def operandText (e : Expr) (code : String) : String :=
  let wrap := match e.kind with
    | .binary _ _ _ | .cast _ _ | .ternary _ _ _ => true
    | _ => false
  parenthesizeIf wrap code

/-- The text of an expression as an operand of a binary operator. An operator inside is wrapped when
it binds looser, when it binds as tight and stands on the right, and when both compare. Reference:
`binary_operand`. -/
def binaryOperandText (parent : BinOp) (isRight : Bool) (e : Expr) (code : String) : String :=
  let wrap := match e.kind with
    | .binary op left right =>
      !op.joinsText left right &&
        (decide (op.precedence < parent.precedence) ||
          (isRight && op.precedence == parent.precedence) ||
          (op.isComparison && parent.isComparison))
    | .cast _ _ | .ternary _ _ _ => true
    | _ => false
  parenthesizeIf wrap code

/-- Whether a type is an optional. -/
def Ty.isOptional : Ty → Bool
  | .optional _ => true
  | _ => false

/-- Whether a type is a reference. -/
def Ty.isRef : Ty → Bool
  | .ref _ _ => true
  | _ => false

/-- The text of an expression of the given type, flowing into a place of the expected type that has
at most that many optional layers: text is made to own its buffer, a value is wrapped into an
optional, and a place is borrowed. Reference: `FnEmitter.coerce`, with a bound on its depth. -/
def coerceWithin (r : Registry) (e : Expr) (actual : Option Ty) (code : String) :
    Nat → Ty → String
  | 0, _ => code
  | n + 1, expected =>
    match r.normalize expected with
    | .ownedText =>
      if e.isTextLiteral || actual.any (·.stripRefs.isViewText) then
        receiverText e code ++ ".to_string()"
      else code
    | .optional inner =>
      if !e.isNull && actual.any (fun t => !t.isOptional && !t.isVoid) then
        "Some(" ++ coerceWithin r e actual code n inner ++ ")"
      else code
    | .ref _ mutable =>
      if e.isPlace && !actual.any Ty.isRef then (if mutable then "&mut " else "&") ++ code
      else code
    | _ => code

/-- The text of an expression flowing into a place of the expected type. Where an alias is an
optional of itself, this goes on for as many layers as calls can be nested. Reference:
`FnEmitter.coerce`. -/
def coerce (r : Registry) (e : Expr) (code : String) : Option Ty → String
  | none => code
  | some t =>
    coerceWithin r e (e.ty.map r.normalize) code (r.expansionBound t + Registry.callLimit) t

/-- The text of a read of a variable. Reference: `FnEmitter.read`. -/
def readVar (cx : FnContext) (b : Bindings) (name : String) (pos : ReadPosition) :
    Rendering String := do
  match b.lookup? name with
  | some id =>
    match cx.usage.bindings[id]? with
    | some u =>
      let reads ← get
      let left := u.reads - (reads.countP (·.id == id) + 1)
      let cloned := pos == .value && cx.usage.needsDuplication.contains id && decide (0 < left)
      set (reads ++ [⟨id, pos, cloned⟩])
      return if cloned then Name.value name ++ ".clone()" else Name.value name
    | none => return Name.value name
  | none => return Name.value name

/-- The text of a place that is read: cloned in value position unless its type duplicates by
itself. Reference: the clones of `FnEmitter.expr`. -/
def clonePlace (cx : FnContext) (pos : ReadPosition) (ty : Option Ty) (code : String) : String :=
  if pos == .value && ty.any (!cx.copy.isDuplicable ·) then code ++ ".clone()" else code

/-- The type of an object: the recorded one or its annotation. -/
def objectTy? (r : Registry) (recorded : Option Ty) (object : Expr) : Option Ty :=
  (recorded <|> object.ty).map r.normalize

/-- The text of an access to an element. Reference: the elements of `FnEmitter.expr`. -/
def elementText (cx : FnContext) (pos : ReadPosition) (ty : Option Ty) (objTy : Ty)
    (obj : String) (index : Expr) (i : String) : String :=
  if objTy.isText then
    obj ++ ".chars().nth((" ++ i ++ ") as usize).map(|c| c.to_string()).unwrap_or_default()"
  else
    clonePlace cx pos ty <|
      match objTy, index.isIntegerLiteral with
      | .tuple _, true => obj ++ "." ++ i
      | _, true => obj ++ "[" ++ i ++ "]"
      | _, false => obj ++ "[(" ++ i ++ ") as usize]"

/-- The text of an access to a field. Reference: the fields of `FnEmitter.expr`. -/
def fieldText (cx : FnContext) (pos : ReadPosition) (ty : Option Ty) (objTy : Ty) (obj : String)
    (field : String) : String :=
  if field == "length" && objTy.hasLength then obj ++ ".len()"
  else clonePlace cx pos ty (obj ++ "." ++ Name.value field)

/-- The text of a cast. Only casts to numbers and to text that owns its buffer are written. Reference:
the casts of `FnEmitter.expr`. -/
def castText (target : Ty) (expr : Expr) (code : String) : String :=
  match target with
  | .ownedText => receiverText expr code ++ ".to_string()"
  | .prim p => if p.isNumeric then operandText expr code ++ " as " ++ p.text .loc else code
  | _ => code

/-- Texts with commas between them. -/
def commaList (codes : List String) : String :=
  String.intercalate ", " codes

/-- The text of a call. -/
def callText (callee : String) (args : List String) : String :=
  callee ++ "(" ++ commaList args ++ ")"

/-- The text of a value with named fields. -/
def recordText (path : String) (fields : List String) : String :=
  path ++ " \x7b " ++ commaList fields ++ " \x7d"

/-- The text of one named field. -/
def fieldInitText (name code : String) : String :=
  Name.value name ++ ": " ++ code

/-- The path of a variant. -/
def variantPath (enumName variant : String) : String :=
  Name.type enumName ++ "::" ++ Name.type variant

/-- The text of a comparison of an expression with `null`. Reference: the comparisons with `null` of
`FnEmitter.binary`. -/
def nullCheckText (op : BinOp) (subject : Expr) (code : String) : String :=
  receiverText subject code ++ (if op == .eq then ".is_none()" else ".is_some()")

/-- The text of two operands joined as text. Reference: the joined texts of `FnEmitter.binary`. -/
def joinText (left right : String) : String :=
  "format!(\"\x7b\x7d\x7b\x7d\", " ++ left ++ ", " ++ right ++ ")"

/-- The spelling of a unary operator. -/
def UnaryOp.symbol : UnaryOp → String
  | .neg => "-"
  | .not => "!"

mutual

/-- The text of an expression in the given position. Reference: `FnEmitter.expr`, with `binary`,
`method_call`, `aggregate` and `variant`. -/
def Expr.render (cx : FnContext) (b : Bindings) (pos : ReadPosition) : Expr → Rendering String
  | ⟨_, .literal value, _⟩ => return value.render
  | ⟨_, .ident name, _⟩ => readVar cx b name pos
  | ⟨_, .unary op expr, _⟩ => do
    let code ← expr.render cx b .value
    return op.symbol ++ operandText expr code
  | ⟨_, .binary op left right, _⟩ =>
    let pos := ReadPosition.ofOperands op left right
    if op.joinsText left right then do
      let l ← left.render cx b pos
      let r ← right.render cx b pos
      return joinText l r
    else if (op == .eq || op == .ne) && right.isNull then do
      let code ← left.render cx b pos
      return nullCheckText op left code
    else if (op == .eq || op == .ne) && left.isNull then do
      let code ← right.render cx b pos
      return nullCheckText op right code
    else do
      let l ← left.render cx b pos
      let r ← right.render cx b pos
      return binaryOperandText op false left l ++ " " ++ op.symbol ++ " " ++
        binaryOperandText op true right r
  | ⟨_, .call callee args, _⟩ => do
    let params := ((cx.registry.function? callee).map (·.params)).getD []
    let codes ← Expr.renderArgs cx b .value params args
    return callText (Name.value callee) codes
  | ⟨_, .methodCall object method ns args objectTy, _⟩ =>
    match namespaceOf? ns object b.isLocal with
    | some ns => do
      let codes ← Expr.renderArgs cx b (.ofMethodArgs (some ns)) [] args
      match Dispatch.of? (some ns) none method with
      | some d => return d.rule.render ⟨none, codes, args.map (·.tyOrVoid)⟩
      | none => return callText (ns.ident ++ "::" ++ Name.value method) codes
    | none => do
      let recvTy := objectTy? cx.registry objectTy object
      let code ← object.render cx b .borrow
      let recv := receiverText object code
      match Dispatch.onValue? recvTy method with
      | some d =>
        let params := match d.rule.elementArgs, recvTy.bind Ty.element? with
          | true, some elem => List.replicate args.length elem
          | _, _ => []
        let codes ← Expr.renderArgs cx b .value params args
        return d.rule.render ⟨some recv, codes, args.map (·.tyOrVoid)⟩
      | none =>
        let sig := recvTy.bind (cx.registry.methodOf? · method)
        let codes ← Expr.renderArgs cx b .value ((sig.map (·.params)).getD []) args
        return callText (recv ++ "." ++ Name.value method) codes
  | ⟨_, .index object index, ty⟩ => do
    let objTy := (objectTy? cx.registry none object).elim .void Ty.stripRefs
    let code ← object.render cx b .borrow
    let i ← index.render cx b .value
    return elementText cx pos ty objTy (receiverText object code) index i
  | ⟨_, .field object field objectTy, ty⟩ =>
    match namespaceConstant? object field b.isLocal with
    | some c => return c.template
    | none => do
      let objTy := (objectTy? cx.registry objectTy object).elim .void Ty.stripRefs
      let code ← object.render cx b .borrow
      return fieldText cx pos ty objTy (receiverText object code) field
  | ⟨_, .array items, ty⟩ => do
    let elems := match ty.bind Ty.element? with
      | some elem => List.replicate items.length elem
      | none => []
    let codes ← Expr.renderArgs cx b .value elems items
    return "vec![" ++ commaList codes ++ "]"
  | ⟨span, .aggregate .pending _, _⟩ => throw ⟨span⟩
  | ⟨_, .aggregate (.named name) fields, _⟩ => do
    let parts ← FieldInit.renderList cx b name fields
    return if parts.isEmpty then Name.type name ++ " \x7b\x7d" else recordText (Name.type name) parts
  | ⟨_, .tuple items, ty⟩ => do
    let elems := match ty with
      | some (.tuple elems) => elems
      | _ => []
    let codes ← Expr.renderArgs cx b .value elems items
    return tupleText codes
  | ⟨_, .variant enumName variant none, _⟩ => return variantPath enumName variant
  | ⟨_, .variant enumName variant (some data), _⟩ =>
    match (cx.registry.variantShape? enumName variant).getD .unit with
    | .struct decls => do
      let parts ← Expr.renderFields cx b decls data
      return recordText (variantPath enumName variant) parts
    | .tuple tys => do
      let codes ← Expr.renderArgs cx b .value tys data
      return callText (variantPath enumName variant) codes
    | .unit => do
      let codes ← Expr.renderArgs cx b .value [] data
      return if codes.isEmpty then variantPath enumName variant
        else callText (variantPath enumName variant) codes
  | ⟨_, .ternary cond thenExpr elseExpr, _⟩ => do
    let c ← cond.render cx b .borrow
    let t ← thenExpr.render cx b pos
    let e ← elseExpr.render cx b pos
    return "if " ++ c ++ " \x7b " ++ t ++ " \x7d else \x7b " ++ e ++ " \x7d"
  | ⟨_, .cast expr ty, _⟩ => do
    let code ← expr.render cx b .value
    return castText (cx.registry.normalize ty) expr code

/-- The texts of expressions that flow into places of the types at their positions. Reference:
`FnEmitter.args`. -/
def Expr.renderArgs (cx : FnContext) (b : Bindings) (pos : ReadPosition) :
    List Ty → List Expr → Rendering (List String)
  | _, [] => return []
  | params, e :: es => do
    let code ← e.render cx b pos
    let codes ← Expr.renderArgs cx b pos params.tail es
    return coerce cx.registry e code params.head? :: codes

/-- The texts of the data of a variant with named fields, as far as there are fields. Reference: the
named fields of `FnEmitter.variant`. -/
def Expr.renderFields (cx : FnContext) (b : Bindings) :
    List FieldDecl → List Expr → Rendering (List String)
  | decl :: decls, e :: es => do
    let code ← e.render cx b .value
    let parts ← Expr.renderFields cx b decls es
    return fieldInitText decl.name (coerce cx.registry e code (some decl.ty)) :: parts
  | _, _ => return []

/-- The texts of the fields of an aggregate literal. Reference: the loop of `FnEmitter.aggregate`. -/
def FieldInit.renderList (cx : FnContext) (b : Bindings) (struct : String) :
    List FieldInit → Rendering (List String)
  | [] => return []
  | ⟨name, value⟩ :: fields => do
    let code ← value.render cx b .value
    let parts ← FieldInit.renderList cx b struct fields
    return fieldInitText name (coerce cx.registry value code (cx.registry.fieldType? struct name)) ::
      parts

end

/-- The text of an expression that flows into a place of the expected type. Reference:
`FnEmitter.value`. -/
def Expr.renderValue (cx : FnContext) (b : Bindings) (expected : Option Ty) (e : Expr) :
    Rendering String := do
  let code ← e.render cx b .value
  return coerce cx.registry e code expected

end Oxidize
