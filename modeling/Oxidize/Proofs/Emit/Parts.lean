import Mathlib.Data.List.Basic
import Oxidize.Proofs.Builtin.Slots
import Oxidize.Proofs.Emit.MutArguments

/-!
# The parts of an expression that are written

The text of an expression holds the texts of its parts, but not of everything inside it: an argument
that the template of a builtin does not show is dropped, and so is the data of a variant past its last
field. `Expr.parts` are the expressions that remain, and `Expr.render_part` says that the text of each
of them occurs in the text of the whole. So an expression writes the variables that its parts write
(`Expr.Writes`), and their names occur in its text.
-/

namespace Oxidize

variable {cx : FnContext} {b : Bindings}

/-! ## Texts within texts -/

/-- The first text occurs in the second one. -/
def Within (text whole : String) : Prop :=
  text.toList <:+: whole.toList

namespace Within

variable {a c : String}

/-- A text occurs in itself. -/
theorem refl (a : String) : Within a a :=
  List.infix_refl _

/-- A text occurs where a text that it occurs in does. -/
theorem trans {whole : String} (h : Within a c) (h' : Within c whole) : Within a whole :=
  List.IsInfix.trans h h'

/-- A text still occurs when something follows. -/
theorem left (h : Within a c) (after : String) : Within a (c ++ after) := by
  rw [Within, String.toList_append]
  exact List.IsInfix.trans h (List.prefix_append _ _).isInfix

/-- A text still occurs when something comes first. -/
theorem right (h : Within a c) (before : String) : Within a (before ++ c) := by
  rw [Within, String.toList_append]
  exact List.IsInfix.trans h (List.suffix_append _ _).isInfix

/-- A text occurs in parentheses. -/
theorem parenthesizeIf (h : Within a c) (wrap : Bool) : Within a (parenthesizeIf wrap c) := by
  cases wrap with
  | false => exact h
  | true => exact (h.right _).left _

/-- A text occurs in its conversion, however many layers are converted. -/
theorem coerceWithin (h : Within a c) (r : Registry) (e : Expr) (actual : Option Ty) (n : Nat)
    (expected : Ty) : Within a (coerceWithin r e actual c n expected) := by
  induction n generalizing expected with
  | zero => exact h
  | succ n ih =>
    rw [Oxidize.coerceWithin]
    split
    · split
      · exact (h.parenthesizeIf _).left _
      · exact h
    · split
      · exact ((ih _).right _).left _
      · exact h
    · split
      · exact h.right _
      · exact h
    · exact h

/-- A text occurs in its conversion. -/
theorem coerce (h : Within a c) (r : Registry) (e : Expr) (expected : Option Ty) :
    Within a (coerce r e c expected) := by
  cases expected with
  | none => exact h
  | some t => exact h.coerceWithin r e _ _ t

/-- The texts of a list occur in it. -/
theorem commaList {codes : List String} (h : a ∈ codes) : Within a (commaList codes) := by
  obtain ⟨i, hi⟩ := List.getElem?_of_mem h
  obtain ⟨l, r, heq, -⟩ := Template.exists_intercalate hi
  exact ⟨l, r, heq.symm⟩

/-- The arguments occur in a call. -/
theorem callText {codes : List String} (h : a ∈ codes) (callee : String) :
    Within a (callText callee codes) :=
  ((commaList h).right _).left _

/-- The fields occur in a record. -/
theorem recordText {codes : List String} (h : a ∈ codes) (path : String) :
    Within a (recordText path codes) :=
  ((commaList h).right _).left _

/-- The elements occur in a tuple. -/
theorem tupleText {codes : List String} (h : a ∈ codes) : Within a (tupleText codes) := by
  unfold Oxidize.tupleText
  split
  · obtain rfl := List.mem_singleton.1 h
    exact ((refl a).right _).left _
  · exact ((commaList h).right _).left _

/-- A place occurs in its clone. -/
theorem clonePlace (h : Within a c) (cx : FnContext) (pos : ReadPosition) (ty : Option Ty) :
    Within a (clonePlace cx pos ty c) := by
  unfold Oxidize.clonePlace
  split
  · exact h.left _
  · exact h

/-- The object occurs in an access to a field. -/
theorem fieldText (h : Within a c) (cx : FnContext) (pos : ReadPosition) (ty : Option Ty)
    (objTy : Ty) (field : String) : Within a (fieldText cx pos ty objTy c field) := by
  unfold Oxidize.fieldText
  split
  · exact h.left _
  · exact ((h.left _).left _).clonePlace cx pos ty

/-- The object occurs in an access to an element. -/
theorem elementText_object (h : Within a c) (cx : FnContext) (pos : ReadPosition) (ty : Option Ty)
    (objTy : Ty) (index : Expr) (i : String) : Within a (elementText cx pos ty objTy c index i) := by
  unfold elementText
  split
  · exact ((h.left _).left _).left _
  · refine Within.clonePlace ?_ cx pos ty
    split
    · exact (h.left _).left _
    · exact ((h.left _).left _).left _
    · exact ((h.left _).left _).left _

/-- The index occurs in an access to an element. -/
theorem elementText_index (h : Within a c) (cx : FnContext) (pos : ReadPosition) (ty : Option Ty)
    (objTy : Ty) (object : String) (index : Expr) :
    Within a (elementText cx pos ty objTy object index c) := by
  unfold elementText
  split
  · exact (h.right _).left _
  · refine Within.clonePlace ?_ cx pos ty
    split
    · exact h.right _
    · exact (h.right _).left _
    · exact (h.right _).left _

/-- The operand occurs in a cast. -/
theorem castText (h : Within a c) (target : Ty) (e : Expr) : Within a (castText target e c) := by
  unfold Oxidize.castText
  split
  · exact (h.parenthesizeIf _).left _
  · split
    · exact ((h.parenthesizeIf _).left _).left _
    · exact h
  · exact h

end Within

/-! ## Calls of builtins -/

/-- The builtin that a call means to rendering, with the arguments. -/
def Expr.builtinCall? (cx : FnContext) (b : Bindings) (e : Expr) : Option (Dispatch × List Expr) :=
  match e.kind with
  | .methodCall object method ns args objectTy =>
    (Dispatch.of? (namespaceOf? ns object b.isLocal) (objectTy? cx.registry objectTy object) method).map
      (·, args)
  | _ => none

/-- The object of a method call that is not on a namespace. -/
def Expr.receiver? (b : Bindings) (e : Expr) : Option Expr :=
  match e.kind with
  | .methodCall object _ ns _ _ =>
    if (namespaceOf? ns object b.isLocal).isNone then some object else none
  | _ => none

/-- The call of a builtin is written by its template. Each argument is rendered in turn, and so is the
receiver. Only rules for arguments of the element type convert them. -/
theorem Expr.render_builtinCall {e : Expr} {d : Dispatch} {args : List Expr}
    (hcall : e.builtinCall? cx b = some (d, args)) {pos : ReadPosition} {reads after : List Read}
    {text : String} (h : (e.render cx b pos).run reads = .ok (text, after)) :
    d.rule ∈ d.table.rules ∧ ∃ texts : CallTexts, text = d.rule.render texts ∧
      (∀ {object}, e.receiver? b = some object → ∃ before code read,
        (object.render cx b .borrow).run before = .ok (code, read) ∧
          texts.receiver = some (receiverText object code)) ∧
      ∀ {i : Nat} {arg}, args[i]? = some arg → ∃ pos before code read param,
        (arg.render cx b pos).run before = .ok (code, read) ∧
          texts.args[i]? = some (coerce cx.registry arg code param) ∧
            (param.isSome = true → d.rule.elementArgs = true) := by
  obtain ⟨span, kind, ty⟩ := e
  cases kind with
  | methodCall object method ns args' objectTy =>
    obtain ⟨found, hd, heq⟩ := Option.map_eq_some_iff.1 hcall
    cases heq
    refine ⟨Dispatch.rule_mem hd, ?_⟩
    rw [Expr.render] at h
    cases hns : namespaceOf? ns object b.isLocal with
    | some n =>
      rw [hns] at h hd
      obtain ⟨codes, reads₁, hargs, h⟩ := Rendering.exists_of_run_bind h
      rw [show Dispatch.of? (some n) none method = some d from hd] at h
      cases h
      refine ⟨⟨none, codes, _⟩, rfl, fun hobject => ?_, fun hi => ?_⟩
      · simp [receiver?, hns] at hobject
      · obtain ⟨before, code, read, hrun, hcode, -⟩ := Expr.renderArgs_run hargs hi
        exact ⟨_, before, code, read, _, hrun, hcode, by simp⟩
    | none =>
      rw [hns] at h hd
      obtain ⟨code, reads₁, hcode, h⟩ := Rendering.exists_of_run_bind h
      rw [show Dispatch.onValue? (objectTy? cx.registry objectTy object) method = some d from hd]
        at h
      obtain ⟨codes, reads₂, hargs, h⟩ := Rendering.exists_of_run_bind h
      cases h
      refine ⟨⟨some (receiverText object code), codes, _⟩, rfl, fun hobject => ?_, fun hi => ?_⟩
      · simp only [receiver?, hns, Option.isNone_none, if_true, Option.some.injEq] at hobject
        subst hobject
        exact ⟨reads, code, reads₁, hcode, rfl⟩
      · obtain ⟨before, code, read, hrun, hcode, -⟩ := Expr.renderArgs_run hargs hi
        refine ⟨_, before, code, read, _, hrun, hcode, fun hparam => ?_⟩
        split at hparam
        next helement _ => exact helement
        next => simp at hparam
  | _ => cases hcall

/-! ## Parts -/

/-- Whether the template of a builtin shows the argument at a position. -/
def Rule.shows (rule : Rule) (i : Nat) : Bool :=
  (Template.slots (Template.pieces rule.template)).any fun s =>
    (Template.shown? s.key).any (·.shows i)

/-- Whether the template of a builtin shows the receiver. -/
def Rule.showsReceiver (rule : Rule) : Bool :=
  (Template.slots (Template.pieces rule.template)).any (·.key == "recv")

/-- The expressions inside an expression whose texts its text is made of. -/
def Expr.parts (cx : FnContext) (b : Bindings) (e : Expr) : List Expr :=
  match e.kind with
  | .literal _ | .ident _ | .aggregate .pending _ | .variant _ _ none => []
  | .unary _ expr | .cast expr _ => [expr]
  | .binary _ left right => [left, right].filter (!·.isNull)
  | .call _ args | .array args | .tuple args => args
  | .methodCall _ _ _ args _ =>
    match e.builtinCall? cx b with
    | some (d, _) =>
      (e.receiver? b).toList.filter (fun _ => d.rule.showsReceiver) ++
        (args.zipIdx.filter fun (_, i) => d.rule.shows i).map (·.1)
    | none => (e.receiver? b).toList ++ args
  | .index object index => [object, index]
  | .field object field _ =>
    if (namespaceConstant? object field b.isLocal).isNone then [object] else []
  | .aggregate (.named _) fields => fields.map (·.value)
  | .variant enumName variant (some data) =>
    match (cx.registry.variantShape? enumName variant).getD .unit with
    | .struct decls => data.take decls.length
    | .tuple _ | .unit => data
  | .ternary cond thenExpr elseExpr => [cond, thenExpr, elseExpr]

/-- A rendering that is a result gives that result. -/
theorem Rendering.eq_of_run_pure {α : Type} {a c : α} {reads after : List Read}
    (h : (pure a : Rendering α).run reads = .ok (c, after)) : a = c :=
  (Prod.mk.inj (Except.ok.inj h)).1

/-- The part is rendered at some point, and its text occurs in the text of the whole. -/
def Expr.Holds (cx : FnContext) (b : Bindings) (part : Expr) (whole : String) : Prop :=
  ∃ pos before code read, (part.render cx b pos).run before = .ok (code, read) ∧ Within code whole

section
variable {part : Expr} {pos : ReadPosition} {reads after : List Read} {code whole : String}
  {codes : List String}

/-- A part that was rendered is held by every text that its own text occurs in. -/
theorem Expr.holds_of_run (h : (part.render cx b pos).run reads = .ok (code, after))
    (hwithin : Within code whole) : part.Holds cx b whole :=
  ⟨pos, reads, code, after, h, hwithin⟩

/-- The arguments of a call are held by a text in which all their texts occur. -/
theorem Expr.renderArgs_holds {es : List Expr} {params : List Ty}
    (h : (Expr.renderArgs cx b pos params es).run reads = .ok (codes, after)) (hpart : part ∈ es)
    (hcodes : ∀ code ∈ codes, Within code whole) : part.Holds cx b whole := by
  obtain ⟨i, hi⟩ := List.getElem?_of_mem hpart
  obtain ⟨before, code, read, hrun, hcode, -⟩ := Expr.renderArgs_run h hi
  exact Expr.holds_of_run hrun
    (((Within.refl code).coerce _ _ _).trans (hcodes _ (List.mem_of_getElem? hcode)))

/-- The data of a variant are held by a text in which all their texts occur; only declared ones are
rendered. -/
theorem Expr.renderFields_holds {decls : List FieldDecl} {es : List Expr}
    (h : (Expr.renderFields cx b decls es).run reads = .ok (codes, after))
    (hpart : part ∈ es.take decls.length) (hcodes : ∀ code ∈ codes, Within code whole) :
    part.Holds cx b whole := by
  induction es generalizing decls reads codes with
  | nil => simp at hpart
  | cons value es ih =>
    cases decls with
    | nil => cases hpart
    | cons decl decls =>
      rw [Expr.renderFields] at h
      obtain ⟨code, reads₁, hhead, h⟩ := Rendering.exists_of_run_bind h
      obtain ⟨rest, reads₂, htail, h⟩ := Rendering.exists_of_run_bind h
      cases h
      obtain ⟨hcode, hrest⟩ := List.forall_mem_cons.1 hcodes
      rcases List.mem_cons.1 hpart with rfl | hpart
      · exact Expr.holds_of_run hhead ((((Within.refl code).coerce _ _ _).right _).trans hcode)
      · exact ih htail hpart hrest

/-- The values of fields are held by a text in which all their texts occur. -/
theorem FieldInit.renderList_holds {struct : String} {fields : List FieldInit}
    (h : (FieldInit.renderList cx b struct fields).run reads = .ok (codes, after))
    (hpart : part ∈ fields.map (·.value)) (hcodes : ∀ code ∈ codes, Within code whole) :
    part.Holds cx b whole := by
  induction fields generalizing reads codes with
  | nil => cases hpart
  | cons init fields ih =>
    obtain ⟨name, value⟩ := init
    rw [FieldInit.renderList] at h
    obtain ⟨code, reads₁, hhead, h⟩ := Rendering.exists_of_run_bind h
    obtain ⟨rest, reads₂, htail, h⟩ := Rendering.exists_of_run_bind h
    cases h
    obtain ⟨hcode, hrest⟩ := List.forall_mem_cons.1 hcodes
    rcases List.mem_cons.1 hpart with rfl | hpart
    · exact Expr.holds_of_run hhead ((((Within.refl code).coerce _ _ _).right _).trans hcode)
    · exact ih htail hpart hrest

end

/-- What a slot of a template shows is in the text. -/
theorem Rule.within_render {rule : Rule} {s : Template.Slot}
    (hs : s ∈ Template.slots (Template.pieces rule.template)) (texts : CallTexts) :
    Within (Template.groupText (Template.placeholder? texts) s.key) (rule.render texts) :=
  ⟨_, _, (s.expand_eq hs texts).symm⟩

/-- An argument that a placeholder shows occurs in the text of the placeholder. -/
theorem Template.Shown.within_text {shown : Template.Shown} {i : Nat} (hshows : shown.shows i = true)
    {texts : CallTexts} {code : String} (hcode : texts.args[i]? = some code) :
    Within code (shown.text texts) := by
  obtain ⟨l, r, heq, -⟩ := shown.text_eq hshows hcode
  refine Within.trans ?_ ⟨l, r, heq.symm⟩
  unfold argText
  split
  · unfold asUsize
    split
    · exact (Within.refl code).left _
    · exact ((Within.refl code).right _).left _
  · exact .refl code

/-- The receiver and the shown arguments of a builtin. -/
theorem Expr.render_builtinPart {e part : Expr} {d : Dispatch} {args : List Expr}
    (hcall : e.builtinCall? cx b = some (d, args))
    (hpart : part ∈ (e.receiver? b).toList.filter (fun _ => d.rule.showsReceiver) ++
      (args.zipIdx.filter fun (_, i) => d.rule.shows i).map (·.1))
    {pos : ReadPosition} {reads after : List Read} {text : String}
    (h : (e.render cx b pos).run reads = .ok (text, after)) : part.Holds cx b text := by
  obtain ⟨-, texts, rfl, hreceiver, hargs⟩ := Expr.render_builtinCall hcall h
  rcases List.mem_append.1 hpart with hpart | hpart
  · obtain ⟨hobject, hshows⟩ := List.mem_filter.1 hpart
    obtain ⟨before, code, read, hrun, hrecv⟩ := hreceiver (Option.mem_toList.1 hobject)
    obtain ⟨s, hs, hkey⟩ := List.any_eq_true.1 hshows
    have hwithin := Rule.within_render hs texts
    rw [beq_iff_eq.1 hkey] at hwithin
    refine Expr.holds_of_run hrun (Within.trans ?_ hwithin)
    rw [Template.groupText, Template.placeholder?, hrecv]
    exact (Within.refl code).parenthesizeIf _
  · obtain ⟨⟨arg, i⟩, hmem, rfl⟩ := List.mem_map.1 hpart
    obtain ⟨hmem, hshows⟩ := List.mem_filter.1 hmem
    obtain ⟨s, hs, hshown⟩ := List.any_eq_true.1 hshows
    obtain ⟨shown, hshown, hshows⟩ := (Option.any_eq_true _ _).1 hshown
    obtain ⟨pos, before, code, read, param, hrun, hcode, -⟩ :=
      hargs (List.mem_zipIdx_iff_getElem?.1 hmem)
    have hwithin := Rule.within_render hs texts
    rw [Template.groupText_of_shown? hshown] at hwithin
    exact Expr.holds_of_run hrun
      (((Within.refl code).coerce _ _ _).trans ((shown.within_text hshows hcode).trans hwithin))

section
variable {span : Span} {ty : Option Ty} {part : Expr} {pos : ReadPosition} {reads after : List Read}
  {text : String}

/-- The operands of a binary operation are held by its text, but for `null`. -/
theorem Expr.render_binaryPart {op : BinOp} {left right : Expr}
    (hpart : part ∈ [left, right].filter (!·.isNull))
    (h : (Expr.render cx b pos ⟨span, .binary op left right, ty⟩).run reads = .ok (text, after)) :
    part.Holds cx b text := by
  obtain ⟨hmem, hnull⟩ := List.mem_filter.1 hpart
  rw [Bool.not_eq_true'] at hnull
  rw [Expr.render] at h
  split at h
  · obtain ⟨l, reads₁, hleft, h⟩ := Rendering.exists_of_run_bind h
    obtain ⟨r, reads₂, hright, h⟩ := Rendering.exists_of_run_bind h
    obtain rfl := Rendering.eq_of_run_pure h
    rcases List.mem_pair.1 hmem with rfl | rfl
    · exact Expr.holds_of_run hleft (((((Within.refl l).right _).left _).left _).left _)
    · exact Expr.holds_of_run hright (((Within.refl r).right _).left _)
  · split at h
    · next hright =>
      obtain ⟨code, reads₁, hrun, h⟩ := Rendering.exists_of_run_bind h
      obtain rfl := Rendering.eq_of_run_pure h
      rcases List.mem_pair.1 hmem with rfl | rfl
      · exact Expr.holds_of_run hrun (((Within.refl code).parenthesizeIf _).left _)
      · simp [hnull] at hright
    · split at h
      · next hleft =>
        obtain ⟨code, reads₁, hrun, h⟩ := Rendering.exists_of_run_bind h
        obtain rfl := Rendering.eq_of_run_pure h
        rcases List.mem_pair.1 hmem with rfl | rfl
        · simp [hnull] at hleft
        · exact Expr.holds_of_run hrun (((Within.refl code).parenthesizeIf _).left _)
      · obtain ⟨l, reads₁, hleft, h⟩ := Rendering.exists_of_run_bind h
        obtain ⟨r, reads₂, hright, h⟩ := Rendering.exists_of_run_bind h
        obtain rfl := Rendering.eq_of_run_pure h
        rcases List.mem_pair.1 hmem with rfl | rfl
        · exact Expr.holds_of_run hleft
            (((((Within.refl l).parenthesizeIf _).left _).left _).left _ |>.left _)
        · exact Expr.holds_of_run hright (((Within.refl r).parenthesizeIf _).right _)

/-- The receiver and the arguments of a method call that is no builtin. -/
theorem Expr.render_methodPart {object : Expr} {method : String} {ns : Option String}
    {args : List Expr} {objectTy : Option Ty}
    (hcall : Expr.builtinCall? cx b ⟨span, .methodCall object method ns args objectTy, ty⟩ = none)
    (hpart : part ∈ (Expr.receiver? b ⟨span, .methodCall object method ns args objectTy, ty⟩).toList ++
      args)
    (h : (Expr.render cx b pos ⟨span, .methodCall object method ns args objectTy, ty⟩).run reads =
      .ok (text, after)) : part.Holds cx b text := by
  have hnone : Dispatch.of? (namespaceOf? ns object b.isLocal)
      (objectTy? cx.registry objectTy object) method = none := Option.map_eq_none_iff.1 hcall
  rw [Expr.render] at h
  cases hns : namespaceOf? ns object b.isLocal with
  | some n =>
    rw [hns] at h hnone
    obtain ⟨codes, reads₁, hargs, h⟩ := Rendering.exists_of_run_bind h
    rw [show Dispatch.of? (some n) none method = none from hnone] at h
    obtain rfl := Rendering.eq_of_run_pure h
    simp only [Expr.receiver?, hns, Option.isNone_some, Bool.false_eq_true, if_false,
      Option.toList_none, List.nil_append] at hpart
    exact Expr.renderArgs_holds hargs hpart fun _ hcode =>
      Within.callText hcode _
  | none =>
    rw [hns] at h hnone
    obtain ⟨code, reads₁, hobject, h⟩ := Rendering.exists_of_run_bind h
    rw [show Dispatch.onValue? (objectTy? cx.registry objectTy object) method = none from hnone] at h
    obtain ⟨codes, reads₂, hargs, h⟩ := Rendering.exists_of_run_bind h
    obtain rfl := Rendering.eq_of_run_pure h
    simp only [Expr.receiver?, hns, Option.isNone_none, if_true, Option.toList_some,
      List.singleton_append, List.mem_cons] at hpart
    rcases hpart with rfl | hpart
    · exact Expr.holds_of_run hobject
        (((((Within.refl code).parenthesizeIf _).left _).left _).left _ |>.left _ |>.left _)
    · exact Expr.renderArgs_holds hargs hpart fun _ hcode =>
        Within.callText hcode _

/-- The data of a variant are held by its text. -/
theorem Expr.render_variantPart {enumName variant : String} {data : List Expr}
    (hpart : part ∈ Expr.parts cx b ⟨span, .variant enumName variant (some data), ty⟩)
    (h : (Expr.render cx b pos ⟨span, .variant enumName variant (some data), ty⟩).run reads =
      .ok (text, after)) : part.Holds cx b text := by
  simp only [Expr.parts] at hpart
  rw [Expr.render] at h
  split at h
  · next decls hshape =>
    rw [hshape] at hpart
    obtain ⟨parts, reads₁, hfields, h⟩ := Rendering.exists_of_run_bind h
    obtain rfl := Rendering.eq_of_run_pure h
    exact Expr.renderFields_holds hfields hpart fun _ hcode =>
      Within.recordText hcode _
  · next tys hshape =>
    rw [hshape] at hpart
    obtain ⟨codes, reads₁, hargs, h⟩ := Rendering.exists_of_run_bind h
    obtain rfl := Rendering.eq_of_run_pure h
    exact Expr.renderArgs_holds hargs hpart fun _ hcode =>
      Within.callText hcode _
  · next hshape =>
    rw [hshape] at hpart
    obtain ⟨codes, reads₁, hargs, h⟩ := Rendering.exists_of_run_bind h
    obtain rfl := Rendering.eq_of_run_pure h
    refine Expr.renderArgs_holds hargs hpart fun _ hcode => ?_
    rw [List.isEmpty_eq_false_iff.2 (List.ne_nil_of_mem hcode), if_neg Bool.false_ne_true]
    exact Within.callText hcode _

/-- The text of a part occurs in the text of the expression. -/
theorem Expr.render_part {e : Expr} (hpart : part ∈ e.parts cx b)
    (h : (e.render cx b pos).run reads = .ok (text, after)) : part.Holds cx b text := by
  obtain ⟨span, kind, ty⟩ := e
  cases kind with
  | literal | ident => cases hpart
  | unary op expr =>
    obtain rfl := List.mem_singleton.1 hpart
    rw [Expr.render] at h
    obtain ⟨code, reads₁, hrun, h⟩ := Rendering.exists_of_run_bind h
    obtain rfl := Rendering.eq_of_run_pure h
    exact Expr.holds_of_run hrun (((Within.refl code).parenthesizeIf _).right _)
  | cast expr target =>
    obtain rfl := List.mem_singleton.1 hpart
    rw [Expr.render] at h
    obtain ⟨code, reads₁, hrun, h⟩ := Rendering.exists_of_run_bind h
    obtain rfl := Rendering.eq_of_run_pure h
    exact Expr.holds_of_run hrun ((Within.refl code).castText _ _)
  | binary op left right => exact Expr.render_binaryPart hpart h
  | call callee args =>
    rw [Expr.render] at h
    obtain ⟨codes, reads₁, hargs, h⟩ := Rendering.exists_of_run_bind h
    obtain rfl := Rendering.eq_of_run_pure h
    exact Expr.renderArgs_holds hargs hpart fun _ hcode =>
      Within.callText hcode _
  | array items =>
    rw [Expr.render] at h
    obtain ⟨codes, reads₁, hargs, h⟩ := Rendering.exists_of_run_bind h
    obtain rfl := Rendering.eq_of_run_pure h
    exact Expr.renderArgs_holds hargs hpart fun _ hcode =>
      ((Within.commaList hcode).right _).left _
  | tuple items =>
    unfold Expr.render at h
    obtain ⟨codes, reads₁, hargs, h⟩ := Rendering.exists_of_run_bind h
    obtain rfl := Rendering.eq_of_run_pure h
    exact Expr.renderArgs_holds hargs hpart fun _ hcode =>
      Within.tupleText hcode
  | methodCall object method ns args objectTy =>
    unfold Expr.parts at hpart
    dsimp only at hpart
    split at hpart
    · next d args' hcall =>
      obtain ⟨found, -, heq⟩ := Option.map_eq_some_iff.1 hcall
      cases heq
      exact Expr.render_builtinPart hcall hpart h
    · next hcall => exact Expr.render_methodPart hcall hpart h
  | index object index =>
    rw [Expr.render] at h
    obtain ⟨code, reads₁, hobject, h⟩ := Rendering.exists_of_run_bind h
    obtain ⟨i, reads₂, hindex, h⟩ := Rendering.exists_of_run_bind h
    obtain rfl := Rendering.eq_of_run_pure h
    rcases List.mem_pair.1 hpart with rfl | rfl
    · exact Expr.holds_of_run hobject
        (((Within.refl code).parenthesizeIf _).elementText_object _ _ _ _ _ _)
    · exact Expr.holds_of_run hindex ((Within.refl i).elementText_index _ _ _ _ _ _)
  | field object field objectTy =>
    simp only [Expr.parts] at hpart
    split at hpart
    · next hconstant =>
      obtain rfl := List.mem_singleton.1 hpart
      rw [Expr.render, Option.isNone_iff_eq_none.1 hconstant] at h
      obtain ⟨code, reads₁, hobject, h⟩ := Rendering.exists_of_run_bind h
      obtain rfl := Rendering.eq_of_run_pure h
      exact Expr.holds_of_run hobject (((Within.refl code).parenthesizeIf _).fieldText _ _ _ _ _)
    · cases hpart
  | aggregate target fields =>
    cases target with
    | pending => cases hpart
    | named name =>
      rw [Expr.render] at h
      obtain ⟨parts, reads₁, hfields, h⟩ := Rendering.exists_of_run_bind h
      obtain rfl := Rendering.eq_of_run_pure h
      refine FieldInit.renderList_holds hfields hpart fun _ hcode => ?_
      rw [List.isEmpty_eq_false_iff.2 (List.ne_nil_of_mem hcode), if_neg Bool.false_ne_true]
      exact Within.recordText hcode _
  | variant enumName variant data =>
    cases data with
    | none => cases hpart
    | some data => exact Expr.render_variantPart hpart h
  | ternary cond thenExpr elseExpr =>
    rw [Expr.render] at h
    obtain ⟨c, reads₁, hcond, h⟩ := Rendering.exists_of_run_bind h
    obtain ⟨t, reads₂, hthen, h⟩ := Rendering.exists_of_run_bind h
    obtain ⟨e, reads₃, helse, h⟩ := Rendering.exists_of_run_bind h
    obtain rfl := Rendering.eq_of_run_pure h
    simp only [Expr.parts, List.mem_cons, List.not_mem_nil, or_false] at hpart
    rcases hpart with rfl | rfl | rfl
    · exact Expr.holds_of_run hcond
        ((((((Within.refl c).right _).left _).left _).left _).left _ |>.left _)
    · exact Expr.holds_of_run hthen (((((Within.refl t).right _).left _).left _).left _)
    · exact Expr.holds_of_run helse (((Within.refl e).right _).left _)

end

/-! ## Variables -/

/-- The expression writes a variable: it is the variable, or one of its parts writes it. -/
inductive Expr.Writes (cx : FnContext) (b : Bindings) : Expr → String → Prop
  | ident {span : Span} {name : String} {ty : Option Ty} :
    b.isLocal name = true → Writes cx b ⟨span, .ident name, ty⟩ name
  | part {e part : Expr} {name : String} :
    part ∈ e.parts cx b → Writes cx b part name → Writes cx b e name

/-- The name of a variable that an expression writes occurs in its text. -/
theorem Expr.Writes.within {e : Expr} {name : String} (h : e.Writes cx b name) {pos : ReadPosition}
    {reads after : List Read} {text : String}
    (hrun : (e.render cx b pos).run reads = .ok (text, after)) : Within (Name.value name) text := by
  induction h generalizing pos reads after text with
  | @ident span name ty hlocal =>
    rw [Expr.render] at hrun
    obtain ⟨text', reads', hrun', htext⟩ := readVar_text cx b name pos reads
    cases hrun.symm.trans hrun'
    rcases htext with ⟨-, rfl⟩ | ⟨rd, -, -, -, rfl⟩
    · exact .refl _
    · split
      · exact (Within.refl _).left _
      · exact .refl _
  | part hpart _ ih =>
    obtain ⟨pos, before, code, read, hcode, hwithin⟩ := Expr.render_part hpart hrun
    exact (ih hcode).trans hwithin

end Oxidize
