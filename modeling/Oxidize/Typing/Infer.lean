import Oxidize.Builtin.Dispatch
import Oxidize.Registry
import Oxidize.Scope

/-!
# The type of an expression

`ExprKind.infer` is the best guess at the type of an expression from the annotations of its parts,
or from their own inferred types where they have none. What cannot be told is `void`.
-/

namespace Oxidize

/-- The type of a literal. The element of `null` is not known. Reference: the literals of
`infer_type`. -/
def Literal.ty : Literal → Ty
  | .number _ => .f64
  | .bool _ => .bool
  | .text _ => .viewText
  | .null => .optional .void

/-- The enum that an object names, unless a local variable hides it. Reference: the test of
`rewrite_variant`, which `infer_type` repeats. -/
def enumNamed? (r : Registry) (env : Env) (object : Expr) : Option String :=
  match object.ident? with
  | some name => if r.isEnum name && !env.isLocal name then some name else none
  | none => none

/-- The type of an identifier: of the local variable, or of the function. Reference: the identifiers
of `infer_type`. -/
def identTy (r : Registry) (env : Env) (name : String) : Ty :=
  match env.lookup? name with
  | some t => t
  | none =>
    match r.function? name with
    | some sig => .fn sig.params sig.ret
    | none => .void

/-- The signature of a method of the aggregate or enum that a type refers to. -/
def Registry.methodOf? (r : Registry) (recv : Ty) (method : String) : Option FnSig := do
  r.method? (← recv.nominalName?) method

/-- The type of an element of a value: of a sequence, of text, or of a tuple at a literal place.
Reference: the elements of `infer_type`. -/
def elementTy (obj : Ty) (index : Expr) : Ty :=
  match obj.stripRefs with
  | .seq elem => elem
  | .tuple elems =>
    match index.kind with
    | .literal (.number x) => if x.isIntegral then elems[x.toPosition]?.getD .void else .void
    | _ => .void
  | t => if t.isText then .ownedText else .void

/-- What has a length: sequences, text, and what could not be typed. -/
def Ty.hasLength (t : Ty) : Bool :=
  t.isSeq || t.isText || t.isVoid

/-- The type of a field of a value. Reference: the fields of `infer_type`. -/
def memberTy (r : Registry) (obj : Ty) (field : String) : Ty :=
  if field == "length" && obj.hasLength then .usize
  else
    match obj with
    | .aggregate name => ((r.fieldType? name field).map r.normalize).getD .void
    | _ => .void

/-- The type of a method call on a value. Reference: the method calls of `infer_type` whose object is
a value. -/
def methodTy (r : Registry) (recv : Ty) (method : String) (args : List Ty) : Ty :=
  match Dispatch.onValue? (some recv) method with
  | some d => d.rule.result.resolve (some recv) args
  | none => ((r.methodOf? recv method).map fun sig => r.normalize sig.ret).getD .void

mutual

/-- The inferred type of an expression of the given kind. Reference: `infer_type`. -/
def ExprKind.infer (r : Registry) (env : Env) : ExprKind → Ty
  | .literal value => value.ty
  | .ident name => identTy r env name
  | .unary .not _ => .bool
  | .unary .neg expr => expr.knownTy r env
  | .binary op left right =>
    if op.isComparison || op.isLogical then .bool
    else
      let leftTy := left.knownTy r env
      let rightTy := right.knownTy r env
      if op == .add && (leftTy.stripRefs.isText || rightTy.stripRefs.isText) then .ownedText
      else leftTy
  | .call callee _ => ((r.function? callee).map fun sig => r.normalize sig.ret).getD .void
  | .methodCall object method ns args _ =>
    let argTys := Expr.knownTys r env args
    match namespaceOf? ns object env.isLocal with
    | some ns =>
      ((Dispatch.of? (some ns) none method).map fun d => d.rule.result.resolve none argTys).getD
        .void
    | none =>
      match enumNamed? r env object with
      | some name => .enum name
      | none => methodTy r (r.normalize (object.knownTy r env)) method argTys
  | .index object index => elementTy (r.normalize (object.knownTy r env)) index
  | .field object field _ =>
    match namespaceOf? none object env.isLocal with
    | some ns => ((ns.constant? field).map fun c => c.result.resolve none []).getD .void
    | none =>
      match enumNamed? r env object with
      | some name => .enum name
      | none => memberTy r (r.normalize (object.knownTy r env)).stripRefs field
  | .array items => .seq ((Expr.knownTys r env items).head?.getD .void)
  | .aggregate (.named name) _ => .aggregate name
  | .aggregate .pending _ => .void
  | .tuple items => .tuple (Expr.knownTys r env items)
  | .variant enumName _ _ => .enum enumName
  | .ternary _ thenExpr _ => thenExpr.knownTy r env
  | .cast _ ty => r.normalize ty

/-- The annotation of an expression, or its inferred type without one. Reference: `child` in
`infer_type`. -/
def Expr.knownTy (r : Registry) (env : Env) : Expr → Ty
  | ⟨_, _, some t⟩ => t
  | ⟨_, kind, none⟩ => kind.infer r env

/-- The known types of expressions. -/
def Expr.knownTys (r : Registry) (env : Env) : List Expr → List Ty
  | [] => []
  | e :: es => e.knownTy r env :: Expr.knownTys r env es

end

/-- The inferred type of an expression, whatever its own annotation. -/
def Expr.infer (r : Registry) (env : Env) (e : Expr) : Ty :=
  e.kind.infer r env

end Oxidize
