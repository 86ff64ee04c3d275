import Oxidize.Compile
import Oxidize.Proofs.Emit.Reads

/-!
# Arguments for parameters that change what they refer to

A place that is passed to a parameter of a mutable reference type is rendered in value position
before it is borrowed. So what is borrowed is the place itself only if its rendering in value
position is the one in borrow position, and a clone of it otherwise; `Expr.isCloned` says which. Nor
does the usage walk look at the types of parameters, so a variable is not declared mutable for being
passed to such a parameter. Both are in `FunctionDecl.mutArguments`, and
`Program.growsClone_compile` is a program that changes a clone for this reason.
-/

namespace Oxidize

variable {cx : FnContext} {b : Bindings}

/-! ## Places in value position -/

/-- Whether a place that is rendered in value position after the given reads is cloned: a variable
that needs duplication by every read except its last one, a field or an element unless its type
duplicates by itself. -/
def Expr.isCloned (cx : FnContext) (b : Bindings) (reads : List Read) : Expr → Bool
  | ⟨_, .ident name, _⟩ =>
    (b.lookup? name).any fun id => cx.usage.bindings[id]?.any fun u =>
      cx.usage.needsDuplication.contains id &&
        decide (0 < u.reads - (reads.countP (·.id == id) + 1))
  | ⟨_, .index object _, ty⟩ =>
    !((objectTy? cx.registry none object).elim .void Ty.stripRefs).isText &&
      ty.any (!cx.copy.isDuplicable ·)
  | ⟨_, .field object field objectTy, ty⟩ =>
    (namespaceConstant? object field b.isLocal).isNone &&
      !(field == "length" &&
        ((objectTy? cx.registry objectTy object).elim .void Ty.stripRefs).hasLength) &&
      ty.any (!cx.copy.isDuplicable ·)
  | _ => false

/-- The suffix of a place that is cloned. -/
def cloneText (cloned : Bool) : String :=
  if cloned then ".clone()" else ""

/-- The suffix is there exactly if the place is cloned. -/
theorem append_cloneText (code : String) (cloned : Bool) :
    code ++ cloneText cloned = if cloned then code ++ ".clone()" else code := by
  cases cloned with
  | true => rfl
  | false => exact String.append_empty

/-- A place in value position is cloned unless its type duplicates by itself. -/
theorem clonePlace_value (ty : Option Ty) (code : String) :
    clonePlace cx .value ty code = code ++ cloneText (ty.any (!cx.copy.isDuplicable ·)) := by
  rw [append_cloneText]
  rfl

/-- A place that is borrowed is not cloned. -/
theorem clonePlace_borrow (ty : Option Ty) (code : String) : clonePlace cx .borrow ty code = code :=
  rfl

/-- An element in value position is the borrowed one with the suffix, if it is cloned. -/
theorem elementText_value (ty : Option Ty) (objTy : Ty) (obj : String) (index : Expr) (i : String) :
    elementText cx .value ty objTy obj index i = elementText cx .borrow ty objTy obj index i ++
      cloneText (!objTy.isText && ty.any (!cx.copy.isDuplicable ·)) := by
  unfold elementText
  cases objTy.isText with
  | true => simp [cloneText]
  | false =>
    simp only [Bool.false_eq_true, if_false, Bool.not_false, Bool.true_and]
    rw [clonePlace_value, clonePlace_borrow]

/-- A field in value position is the borrowed one with the suffix, if it is cloned. -/
theorem fieldText_value (ty : Option Ty) (objTy : Ty) (obj field : String) :
    fieldText cx .value ty objTy obj field = fieldText cx .borrow ty objTy obj field ++
      cloneText (!(field == "length" && objTy.hasLength) && ty.any (!cx.copy.isDuplicable ·)) := by
  unfold fieldText
  cases field == "length" && objTy.hasLength with
  | true => simp [cloneText]
  | false =>
    simp only [Bool.false_eq_true, if_false, Bool.not_false, Bool.true_and]
    rw [clonePlace_value, clonePlace_borrow]

/-- A variable in value position is the borrowed one with the suffix, if it is cloned. -/
theorem readVar_value (cx : FnContext) (b : Bindings) (name : String) (reads : List Read) (span : Span) (ty : Option Ty) :
    ∃ borrowed moved, (readVar cx b name .borrow).run reads = .ok (Name.value name, borrowed) ∧
      (readVar cx b name .value).run reads =
        .ok (Name.value name ++ cloneText (Expr.isCloned cx b reads ⟨span, .ident name, ty⟩),
          moved) := by
  cases hl : b.lookup? name with
  | none =>
    refine ⟨reads, reads, readVar_run_of_not_lookup hl reads, ?_⟩
    rw [readVar_run_of_not_lookup hl]
    simp [Expr.isCloned, hl, cloneText]
  | some id =>
    cases hu : cx.usage.bindings[id]? with
    | none =>
      refine ⟨reads, reads, readVar_run_of_not_counted hl hu reads, ?_⟩
      rw [readVar_run_of_not_counted hl hu]
      simp [Expr.isCloned, hl, hu, cloneText]
    | some u =>
      have hcloned : Expr.isCloned cx b reads ⟨span, .ident name, ty⟩ =
          (cx.usage.needsDuplication.contains id &&
            decide (0 < u.reads - (reads.countP (·.id == id) + 1))) := by
        simp [Expr.isCloned, hl, hu]
      rw [hcloned, append_cloneText]
      exact ⟨_, _, readVar_run_of_lookup hl hu reads, readVar_run_of_lookup hl hu reads⟩

/-- A place that renders in value position renders in borrow position, and the two texts differ at
most in a clone at the end. -/
theorem Expr.render_value_place {e : Expr} (he : e.isPlace = true) {reads after : List Read}
    {text : String} (h : (e.render cx b .value).run reads = .ok (text, after)) :
    ∃ place borrowed, (e.render cx b .borrow).run reads = .ok (place, borrowed) ∧
      text = place ++ cloneText (e.isCloned cx b reads) := by
  obtain ⟨span, kind, ty⟩ := e
  cases kind with
  | ident name =>
    obtain ⟨borrowed, moved, hborrow, hvalue⟩ :=
      readVar_value cx b name reads span ty
    rw [Expr.render, hvalue] at h
    cases h
    exact ⟨_, borrowed, by rw [Expr.render, hborrow], rfl⟩
  | index object index =>
    rw [Expr.render] at h
    obtain ⟨code, reads₁, hobject, h⟩ := Rendering.exists_of_run_bind h
    obtain ⟨i, reads₂, hindex, h⟩ := Rendering.exists_of_run_bind h
    cases h
    refine ⟨_, after, ?_, elementText_value ..⟩
    rw [Expr.render, Rendering.run_bind hobject, Rendering.run_bind hindex]
    rfl
  | field object field objectTy =>
    rw [Expr.render] at h
    cases hconst : namespaceConstant? object field b.isLocal with
    | some c =>
      rw [hconst] at h
      cases h
      refine ⟨_, reads, by rw [Expr.render, hconst]; rfl, ?_⟩
      simp [Expr.isCloned, hconst, cloneText]
    | none =>
      rw [hconst] at h
      obtain ⟨code, reads₁, hobject, h⟩ := Rendering.exists_of_run_bind h
      cases h
      have hcloned : Expr.isCloned cx b reads ⟨span, .field object field objectTy, ty⟩ =
          (!(field == "length" &&
            ((objectTy? cx.registry objectTy object).elim .void Ty.stripRefs).hasLength) &&
            ty.any (!cx.copy.isDuplicable ·)) := by
        simp [Expr.isCloned, hconst]
      rw [hcloned]
      refine ⟨_, after, ?_, fieldText_value ..⟩
      rw [Expr.render, hconst]
      exact Rendering.run_bind hobject
  | _ => cases he

/-! ## Arguments -/

/-- Each argument is rendered after those before it and made to fit the parameter at its position. -/
theorem Expr.renderArgs_run {pos : ReadPosition} :
    ∀ {es : List Expr} {params : List Ty} {reads after : List Read} {codes : List String},
      (Expr.renderArgs cx b pos params es).run reads = .ok (codes, after) →
      ∀ {i : Nat} {e : Expr}, es[i]? = some e →
        ∃ before code read, (e.render cx b pos).run before = .ok (code, read) ∧
          codes[i]? = some (coerce cx.registry e code params[i]?) ∧
          (Expr.renderArgs cx b pos params (es.take i)).run reads = .ok (codes.take i, before)
  | [], _, _, _, _, _, _, _, hi => by cases hi
  | e :: es, params, reads, after, codes, h, i, arg, hi => by
    rw [Expr.renderArgs] at h
    obtain ⟨code, reads₁, hhead, h⟩ := Rendering.exists_of_run_bind h
    obtain ⟨rest, reads₂, htail, h⟩ := Rendering.exists_of_run_bind h
    cases h
    cases i with
    | zero =>
      cases hi
      exact ⟨reads, code, reads₁, hhead, by rw [List.head?_eq_getElem?]; rfl, rfl⟩
    | succ i =>
      obtain ⟨before, code', read, hrun, hcode, hbefore⟩ := Expr.renderArgs_run htail (i := i) hi
      refine ⟨before, code', read, hrun, ?_, ?_⟩
      · rw [List.getElem?_cons_succ, hcode, List.getElem?_tail]
      · rw [List.take_succ_cons, Expr.renderArgs, Rendering.run_bind hhead, Rendering.run_bind hbefore]
        rfl

/-- A conversion goes down at least one layer. -/
theorem exists_coerce_eq (r : Registry) (e : Expr) (code : String) (t : Ty) :
    ∃ n, coerce r e code (some t) = coerceWithin r e (e.ty.map r.normalize) code (n + 1) t :=
  ⟨r.expansionBound t + (Registry.callLimit - 1), rfl⟩

/-- A place is borrowed for a parameter of a reference type. -/
theorem coerce_place {r : Registry} {e : Expr} {param inner : Ty} {mutable : Bool}
    (he : e.isPlace = true) (hparam : r.normalize param = .ref inner mutable)
    (hty : (e.ty.map r.normalize).any Ty.isRef = false) (code : String) :
    coerce r e code (some param) = (if mutable then "&mut " else "&") ++ code := by
  obtain ⟨n, heq⟩ := exists_coerce_eq r e code param
  rw [heq]
  simp only [coerceWithin, hparam, he, hty, Bool.not_false, Bool.and_self, if_true]

/-- The types of the parameters and the arguments of a call of a declared function or of a method
that is no builtin. -/
def Expr.declaredCall? (cx : FnContext) (b : Bindings) (e : Expr) : Option (List Ty × List Expr) :=
  match e.kind with
  | .call callee args => some (((cx.registry.function? callee).map (·.params)).getD [], args)
  | .methodCall object method ns args objectTy =>
    let recvTy := objectTy? cx.registry objectTy object
    match namespaceOf? ns object b.isLocal, Dispatch.onValue? recvTy method with
    | none, none =>
      some (((recvTy.bind (cx.registry.methodOf? · method)).map (·.params)).getD [], args)
    | _, _ => none
  | _ => none

/-- The reads with which the arguments of a call begin: the object of a method is rendered before
them. -/
def Expr.BeginsArguments (cx : FnContext) (b : Bindings) (e : Expr) (reads start : List Read) : Prop :=
  match e.kind with
  | .methodCall object .. => ∃ code, (object.render cx b .borrow).run reads = .ok (code, start)
  | _ => start = reads

/-- The arguments of such a call are rendered in value position, in order. -/
theorem Expr.render_declaredCall {e : Expr} {params : List Ty} {args : List Expr}
    (hcall : e.declaredCall? cx b = some (params, args)) {pos : ReadPosition}
    {reads after : List Read} {text : String}
    (h : (e.render cx b pos).run reads = .ok (text, after)) :
    ∃ callee codes start, text = callText callee codes ∧ e.BeginsArguments cx b reads start ∧
      (Expr.renderArgs cx b .value params args).run start = .ok (codes, after) := by
  obtain ⟨span, kind, ty⟩ := e
  unfold Expr.declaredCall? at hcall
  cases kind with
  | call callee args' =>
    cases hcall
    rw [Expr.render] at h
    obtain ⟨codes, reads₁, hargs, h⟩ := Rendering.exists_of_run_bind h
    cases h
    exact ⟨_, codes, reads, rfl, rfl, hargs⟩
  | methodCall object method ns args' objectTy =>
    simp only at hcall
    split at hcall
    next hns hdispatch =>
      cases hcall
      rw [Expr.render, hns] at h
      obtain ⟨code, reads₁, hobject, h⟩ := Rendering.exists_of_run_bind h
      simp only [hdispatch] at h
      obtain ⟨codes, reads₂, hargs, h⟩ := Rendering.exists_of_run_bind h
      cases h
      exact ⟨_, codes, reads₁, rfl, ⟨code, hobject⟩, hargs⟩
    next => cases hcall
  | _ => cases hcall

/-! ## What counts as a change -/

/-- The declarations agree on which methods change their receivers. -/
def SameMutations (r r' : Option Registry) : Prop :=
  ∀ recv method, methodMutates r recv method = methodMutates r' recv method

section
variable {r r' : Option Registry}

mutual

/-- Of the declarations only the receivers of methods play a part in what is done to variables. -/
theorem Expr.usage_congr (h : SameMutations r r') (b : Bindings) :
    (e : Expr) → (pos : ReadPosition) → e.usage r b pos = e.usage r' b pos
  | ⟨_, .literal _, _⟩, _ | ⟨_, .ident _, _⟩, _ | ⟨_, .variant _ _ none, _⟩, _ => rfl
  | ⟨_, .unary _ expr, _⟩, _ | ⟨_, .cast expr _, _⟩, _ => expr.usage_congr h b .value
  | ⟨_, .binary _ left right, _⟩, _ => by
    rw [Expr.usage, Expr.usage, left.usage_congr h b, right.usage_congr h b]
  | ⟨_, .call _ args, _⟩, _ => Expr.usageList_congr h b .value args
  | ⟨_, .methodCall object _ _ args _, _⟩, _ => by
    rw [Expr.usage, Expr.usage]
    split
    · exact Expr.usageList_congr h b _ args
    · rw [h, object.usage_congr h b .borrow, Expr.usageList_congr h b _ args]
  | ⟨_, .index object index, _⟩, _ => by
    rw [Expr.usage, Expr.usage, object.usage_congr h b, index.usage_congr h b]
  | ⟨_, .field object _ _, _⟩, _ => object.usage_congr h b .borrow
  | ⟨_, .array items, _⟩, _ | ⟨_, .tuple items, _⟩, _ => Expr.usageList_congr h b .value items
  | ⟨_, .aggregate _ fields, _⟩, _ => FieldInit.usageList_congr h b fields
  | ⟨_, .variant _ _ (some data), _⟩, _ => Expr.usageList_congr h b .value data
  | ⟨_, .ternary cond thenExpr elseExpr, _⟩, pos => by
    rw [Expr.usage, Expr.usage, cond.usage_congr h b, thenExpr.usage_congr h b,
      elseExpr.usage_congr h b]

/-- The walk over expressions asks the declarations only for methods that change their receivers. -/
theorem Expr.usageList_congr (h : SameMutations r r') (b : Bindings) (pos : ReadPosition) :
    (es : List Expr) → Expr.usageList r b pos es = Expr.usageList r' b pos es
  | [] => rfl
  | e :: es => by
    rw [Expr.usageList, Expr.usageList, e.usage_congr h b, Expr.usageList_congr h b pos es]

/-- The walk over fields asks the declarations only for methods that change their receivers. -/
theorem FieldInit.usageList_congr (h : SameMutations r r') (b : Bindings) :
    (fields : List FieldInit) → FieldInit.usageList r b fields = FieldInit.usageList r' b fields
  | [] => rfl
  | ⟨_, value⟩ :: fields => by
    rw [FieldInit.usageList, FieldInit.usageList, value.usage_congr h b,
      FieldInit.usageList_congr h b fields]

end

/-- So does the walk over an optional expression. -/
theorem Expr.usage?_congr (h : SameMutations r r') (b : Bindings) (pos : ReadPosition)
    (e : Option Expr) : Expr.usage? r b pos e = Expr.usage? r' b pos e := by
  cases e with
  | none => rfl
  | some e => exact e.usage_congr h b pos

/-- So does the walk over the target of an assignment. -/
theorem Expr.placeUsage_congr (h : SameMutations r r') (b : Bindings) (target : Expr) :
    target.placeUsage r b = target.placeUsage r' b := by
  unfold Expr.placeUsage
  split
  · rfl
  · rw [target.usage_congr h b .borrow]

mutual

/-- The walk over a statement asks the declarations only for methods that change their receivers. -/
theorem Stmt.usage_congr (h : SameMutations r r') :
    (s : Stmt) → (b : Bindings) → s.usage r b = s.usage r' b
  | .letVar _ _ _ _ init, b => by
    rw [Stmt.usage, Stmt.usage, Expr.usage?_congr h]
  | .assign _ target value, b => by
    rw [Stmt.usage, Stmt.usage, target.placeUsage_congr h, value.usage_congr h]
  | .ret _ value, b => by
    rw [Stmt.usage, Stmt.usage, Expr.usage?_congr h]
  | .ifElse _ cond thenBlock elseBlock, b => by
    rw [Stmt.usage, Stmt.usage, cond.usage_congr h, thenBlock.usage_congr h]
    simp only [Block.usage?_congr h elseBlock]
  | .whileLoop _ cond body, b => by
    rw [Stmt.usage, Stmt.usage, cond.usage_congr h, body.usage_congr h]
  | .forEach _ _ iterable body, b => by
    rw [Stmt.usage, Stmt.usage, iterable.usage_congr h]
    simp only [body.usage_congr h]
  | .switch _ scrutinee cases, b => by
    rw [Stmt.usage, Stmt.usage, scrutinee.usage_congr h, SwitchCase.usageList_congr h cases]
  | .breakLoop _, _ | .continueLoop _, _ => rfl
  | .expr e, b => by
    rw [Stmt.usage, Stmt.usage, e.usage_congr h]
  | .block body, b => body.usage_congr h b

/-- So does the walk over statements. -/
theorem Stmt.usageList_congr (h : SameMutations r r') :
    (ss : List Stmt) → (b : Bindings) → Stmt.usageList r b ss = Stmt.usageList r' b ss
  | [], _ => rfl
  | s :: ss, b => by
    rw [Stmt.usageList, Stmt.usageList, s.usage_congr h]
    simp only [Stmt.usageList_congr h ss]

/-- So does the walk over a block. -/
theorem Block.usage_congr (h : SameMutations r r') :
    (body : Block) → (b : Bindings) → body.usage r b = body.usage r' b
  | ⟨_, stmts⟩, b => by
    rw [Block.usage, Block.usage, Stmt.usageList_congr h stmts]

/-- So does the walk over an optional block. -/
theorem Block.usage?_congr (h : SameMutations r r') :
    (body : Option Block) → (b : Bindings) → Block.usage? r b body = Block.usage? r' b body
  | none, _ => rfl
  | some body, b => body.usage_congr h b

/-- So does the walk over the cases of a switch. -/
theorem SwitchCase.usageList_congr (h : SameMutations r r') :
    (cases : List SwitchCase) → (b : Bindings) →
      SwitchCase.usageList r b cases = SwitchCase.usageList r' b cases
  | [], _ => rfl
  | ⟨_, value, body, _⟩ :: cases, b => by
    rw [SwitchCase.usageList, SwitchCase.usageList, Expr.usage?_congr h,
      Stmt.usageList_congr h body]
    simp only [SwitchCase.usageList_congr h cases]

end

/-- The walk over a function asks the declarations only for methods that change their receivers. -/
theorem FunctionDecl.usageEvents_congr (h : SameMutations r r') (f : FunctionDecl) :
    f.usageEvents r = f.usageEvents r' := by
  rw [FunctionDecl.usageEvents, FunctionDecl.usageEvents, Stmt.usageList_congr h]

end

/-- A variable has to be declared mutable exactly if the function assigns to it or changes it in
place. -/
theorem FunctionDecl.needsMut_usage_iff {copy : CopySet} {f : FunctionDecl} {id : BindingId}
    (hid : id < (f.usage copy).bindings.length) :
    (f.usage copy).needsMut id = true ↔
      ∃ event ∈ f.usageEvents copy.registry,
        event.isWriteOf id = true ∨ event.isMutationOf id = true := by
  obtain ⟨u, hu⟩ : ∃ u, (f.usage copy).bindings[id]? = some u :=
    ⟨_, List.getElem?_eq_getElem hid⟩
  rw [UsageReport.needsMut, hu]
  simp only [usage, UsageReport.ofBindings, List.getElem?_map, List.getElem?_zipIdx,
    Option.map_map, Option.map_eq_some_iff] at hu
  obtain ⟨v, -, rfl⟩ := hu
  have hwrites : 1 < (f.usageEvents copy.registry).countP (·.isWriteOf id) + 1 ↔
      ∃ event ∈ f.usageEvents copy.registry, event.isWriteOf id = true :=
    Nat.succ_lt_succ_iff.trans List.countP_pos_iff
  simp only [Function.comp_apply, Nat.zero_add, Option.any_some, VarUsage.needsMut,
    VarUsage.ofEvents, Bool.or_eq_true, decide_eq_true_eq, List.any_eq_true, hwrites]
  constructor
  · rintro (⟨event, hmem, hmutation⟩ | ⟨event, hmem, hwrite⟩)
    · exact ⟨event, hmem, .inr hmutation⟩
    · exact ⟨event, hmem, .inl hwrite⟩
  · rintro ⟨event, hmem, hwrite | hmutation⟩
    · exact .inr ⟨event, hmem, hwrite⟩
    · exact .inl ⟨event, hmem, hmutation⟩

/-! ## Functions -/

/-- **What is passed to a parameter of a mutable reference type.** In a call of a declared function
or method, a place of another type that is passed to such a parameter is written `&mut`, its
rendering in borrow position, and `.clone()` exactly if it is a variable that needs duplication and is
read again, or a field or an element whose type does not duplicate by itself. What was read before the place is what was
read before the call, in the object of a method and in the arguments before. And a variable has to be
declared mutable exactly if it is assigned to or changed in place, which does not depend on the types of
parameters. -/
theorem FunctionDecl.mutArguments (r : Registry) (copy : CopySet) (f : FunctionDecl) :
    let cx := f.context r copy
    (∀ (e : Expr) (b : Bindings) (pos : ReadPosition) (params : List Ty) (args : List Expr)
        (reads after : List Read) (text : String),
      e.declaredCall? cx b = some (params, args) →
      (e.render cx b pos).run reads = .ok (text, after) →
      ∃ callee codes start, text = callText callee codes ∧ e.BeginsArguments cx b reads start ∧
        ∀ (i : Nat) (arg : Expr) (param inner : Ty), args[i]? = some arg → params[i]? = some param →
          arg.isPlace = true → (arg.ty.map r.normalize).any Ty.isRef = false →
          r.normalize param = .ref inner true →
          ∃ before place borrowed,
            (Expr.renderArgs cx b .value params (args.take i)).run start = .ok (codes.take i, before) ∧
            (arg.render cx b .borrow).run before = .ok (place, borrowed) ∧
            codes[i]? = some ("&mut " ++ (place ++ cloneText (arg.isCloned cx b before)))) ∧
    (∀ id < cx.usage.bindings.length, cx.usage.needsMut id = true ↔
      ∃ event ∈ f.usageEvents copy.registry,
        event.isWriteOf id = true ∨ event.isMutationOf id = true) ∧
    ∀ r', SameMutations r' copy.registry → f.usageEvents r' = f.usageEvents copy.registry := by
  refine ⟨fun e b pos params args reads after text hcall hrun => ?_,
    fun id hid => FunctionDecl.needsMut_usage_iff hid,
    fun r' h => FunctionDecl.usageEvents_congr h f⟩
  obtain ⟨callee, codes, start, htext, hstart, hargs⟩ := Expr.render_declaredCall hcall hrun
  refine ⟨callee, codes, start, htext, hstart, fun i arg param inner harg hparam hplace hty href => ?_⟩
  obtain ⟨before, code, read, hcode, hcodes, hbefore⟩ := Expr.renderArgs_run hargs harg
  obtain ⟨place, borrowed, hborrow, rfl⟩ := Expr.render_value_place hplace hcode
  refine ⟨before, place, borrowed, hbefore, hborrow, ?_⟩
  rw [hcodes, hparam]
  exact congrArg some (coerce_place hplace href hty _)

/-- A function that changes a sequence through a reference, and a function that passes it a variable
of its own and looks at the variable afterwards. -/
def Program.growsClone : Program :=
  let xs := Expr.ofKind (.ident "xs")
  let one := Expr.ofKind (.literal (.number ⟨0x3ff0000000000000⟩))
  let grown := Expr.ofKind (.field xs "length" none)
  { decls := [
      .function ⟨.zero, "grow", [⟨"xs", .ref (.seq .f64) true, false⟩], .void,
        .ofStmts [.expr (.ofKind (.methodCall xs "push" none [one] none))], false, none⟩,
      .function ⟨.zero, "main", [], .void, .ofStmts [
        .letVar .zero "xs" (some (.seq .f64)) false (some (.ofKind (.array [one]))),
        .expr (.ofKind (.call "grow" [xs])),
        .expr (.ofKind (.methodCall (.ofKind (.ident "console")) "log" none [grown] none))],
        false, none⟩] }

/-- What the caller looks at has not grown: the function changes a clone of it. -/
theorem Program.growsClone_compile :
    (growsClone.compile {}).value.toOption.map (·.source) =
      some ("fn grow(mut xs: &mut Vec<f64>) \x7b\n    xs.push(1);\n\x7d\n\n" ++
        "fn main() \x7b\n    let xs: Vec<f64> = vec![1];\n    grow(&mut xs.clone());\n" ++
        "    println!(\"\x7b\x7d\", xs.len());\n\x7d\n") := by
  decide +kernel

/-- The function that passes its variable, annotated. -/
def FunctionDecl.passesOwn : FunctionDecl :=
  let xs : Expr := ⟨.zero, .ident "xs", some (.seq .f64)⟩
  ⟨.zero, "main", [], .void, .ofStmts [
    .letVar .zero "xs" (some (.seq .f64)) false none,
    .expr ⟨.zero, .call "grow" [xs], some .void⟩,
    .expr xs], false, none⟩

/-- The variable is read once more after the call, so that it is cloned in the call. -/
theorem FunctionDecl.passesOwn_mutArguments :
    let r := Registry.ofProgram .growsClone
    let cx := passesOwn.context r (.ofRegistry r)
    let b := Bindings.empty.declare "xs"
    let xs : Expr := ⟨.zero, .ident "xs", some (.seq .f64)⟩
    (∃ callee codes, "grow(&mut xs.clone())" = callText callee codes ∧
      ∃ place borrowed, (xs.render cx b .borrow).run [] = .ok (place, borrowed) ∧
        codes[0]? = some ("&mut " ++ (place ++ cloneText (xs.isCloned cx b [])))) ∧
      (cx.usage.needsMut 0 = true ↔ ∃ event ∈ passesOwn.usageEvents (some r),
        event.isWriteOf 0 = true ∨ event.isMutationOf 0 = true) ∧
      passesOwn.usageEvents none = passesOwn.usageEvents (some r) := by
  intro r cx b xs
  obtain ⟨hargs, hmut, hevents⟩ := mutArguments r (.ofRegistry r) passesOwn
  have hnone : SameMutations none (some r) := by
    intro recv method
    unfold methodMutates
    cases Dispatch.onValue? recv method with
    | some d => rfl
    | none => cases recv.bind Ty.nominalName? <;> rfl
  refine ⟨?_, hmut 0 (by decide), hevents none hnone⟩
  obtain ⟨callee, codes, start, htext, rfl, harg⟩ := hargs ⟨.zero, .call "grow" [xs], some .void⟩ b .value
    [.ref (.seq .f64) true] [xs] [] [⟨0, .value, true⟩] "grow(&mut xs.clone())" rfl rfl
  obtain ⟨before, place, borrowed, hbefore, hplace, hcode⟩ :=
    harg 0 xs _ (.seq .f64) rfl rfl rfl rfl rfl
  cases hbefore
  exact ⟨callee, codes, htext, place, borrowed, hplace, hcode⟩

end Oxidize
