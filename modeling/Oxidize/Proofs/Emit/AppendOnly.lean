import Oxidize.Emit.Program
import Oxidize.Proofs.Emit.Follow

/-!
# Emission only appends

Emitting a statement adds lines below what has been emitted and leaves the point of emission where
it was: at the same level of indentation and in the same frames, whose names are unchanged but for
the variable that the statement declares. The arms of a switch are emitted apart, case by case, and
put together in another order, with switches inside of them that are emitted the same way.
`Emitting.AppendsOnly` has one rule for each way in which emissions are put together, and
`Stmt.emit_appendsOnly` goes through the statements with these rules.
-/

namespace Oxidize

open Emitting (rendering line append note declare indented framed captured)

/-! ## What stays as it was -/

/-- The point of emission is the same as before, but for names that the emission may declare. -/
structure Emission.Keeps (own : String → Prop) (st st' : Emission) : Prop where
  indent : st'.indent = st.indent
  outer : st'.bindings.scope.outer = st.bindings.scope.outer
  lookup : ∀ name, ¬ own name → st'.bindings.lookup? name = st.bindings.lookup? name

namespace Emission.Keeps

variable {own : String → Prop} {st st' st'' : Emission}

/-- The point of emission is the same if indentation and bindings are. -/
theorem of_eq (hi : st'.indent = st.indent) (hb : st'.bindings = st.bindings) : st.Keeps own st' :=
  ⟨hi, by rw [hb], fun _ _ => by rw [hb]⟩

/-- What is kept twice is kept. -/
theorem trans (h : st.Keeps own st') (h' : st'.Keeps own st'') : st.Keeps own st'' :=
  ⟨h'.indent.trans h.indent, h'.outer.trans h.outer, fun name hn =>
    (h'.lookup name hn).trans (h.lookup name hn)⟩

end Emission.Keeps

/-- The emission leaves the point of emission as it was, but for names that it may declare, and adds
the same lines whatever has been emitted before. -/
def Emitting.AppendsOnly {α : Type} (own : String → Prop) (x : Emitting α) : Prop :=
  ∀ st a st', x.run st = .ok a st' → st.Keeps own st' ∧ ∃ added, ∀ before,
    x.run { st with lines := before } = .ok a { st' with lines := before ++ added }

namespace Emitting.AppendsOnly

variable {α β : Type} {own : String → Prop} {x : Emitting α} {f : α → Emitting β}

/-! ## Rules -/

/-- An emission that adds no line, whatever has been emitted, and touches no name. -/
theorem quiet (h : ∀ st a st', x.run st = .ok a st' →
    st'.indent = st.indent ∧ st'.bindings = st.bindings ∧
      ∀ before, x.run { st with lines := before } = .ok a { st' with lines := before }) :
    Emitting.AppendsOnly own x := by
  intro st a st' hx
  obtain ⟨hindent, hbindings, hrun⟩ := h st a st' hx
  refine ⟨.of_eq hindent hbindings, [], fun before => ?_⟩
  rw [List.append_nil]
  exact hrun before

/-- A result that is given appends no line. -/
theorem pure (a : α) : Emitting.AppendsOnly own (Pure.pure a : Emitting α) := by
  refine .quiet ?_
  rintro st a' st' ⟨⟩
  exact ⟨rfl, rfl, fun _ => rfl⟩

/-- Two emissions in a row only append if both do. -/
theorem bind (hx : Emitting.AppendsOnly own x) (hf : ∀ a, Emitting.AppendsOnly own (f a)) :
    Emitting.AppendsOnly own (x >>= f) := by
  intro st c st'' h
  obtain ⟨a, st', h₁, h₂⟩ := Emitting.exists_of_run_bind h
  obtain ⟨hkeeps, added, hrun⟩ := hx st a st' h₁
  obtain ⟨hkeeps', added', hrun'⟩ := hf a st' c st'' h₂
  refine ⟨hkeeps.trans hkeeps', added ++ added', fun before => ?_⟩
  rw [EStateM.run_bind, hrun before, ← List.append_assoc]
  exact hrun' (before ++ added)

/-- Looking at the bindings appends no line. -/
theorem bindings : Emitting.AppendsOnly own Emitting.bindings := by
  refine .quiet ?_
  rintro st a st' ⟨⟩
  exact ⟨rfl, rfl, fun _ => rfl⟩

/-- Rendering appends no line. -/
theorem rendering (y : Rendering α) : Emitting.AppendsOnly own (rendering y) := by
  refine .quiet fun st a st' h => ?_
  change Emitting.rendering y st = .ok a st' at h
  unfold Emitting.rendering at h
  split at h
  · next a' reads hy =>
    cases h
    refine ⟨rfl, rfl, fun before => ?_⟩
    change Emitting.rendering y { st with lines := before } = _
    unfold Emitting.rendering
    rw [hy]
  · cases h

/-- Appending lines does not look at those that are there. -/
theorem append (lines : List String) : Emitting.AppendsOnly own (append lines) := by
  rintro st a st' ⟨⟩
  exact ⟨.of_eq rfl rfl, lines, fun before => rfl⟩

/-- A line is appended whatever comes before. -/
theorem line (text : String) : Emitting.AppendsOnly own (line text) := by
  rintro st a st' ⟨⟩
  exact ⟨.of_eq rfl rfl, [indentation st.indent ++ text], fun before => rfl⟩

/-- Recording a case that falls through appends no line. -/
theorem noteFallthrough (pattern : String) :
    Emitting.AppendsOnly own (noteFallthrough pattern) := by
  refine .quiet ?_
  rintro st a st' ⟨⟩
  exact ⟨rfl, rfl, fun _ => rfl⟩

/-- A declaration keeps all names but its own. -/
theorem declare {name : String} (hown : own name) : Emitting.AppendsOnly own (declare name) := by
  rintro st a st' ⟨⟩
  refine ⟨⟨rfl, rfl, fun other hother => ?_⟩, [], fun before => by rw [List.append_nil]; rfl⟩
  have hne : other ≠ name := by
    rintro rfl
    exact hother hown
  exact (Bindings.lookup?_declare ..).trans (if_neg hne)

/-- An emission between two changes of the state, neither of which looks at the lines, and the
second of which undoes what the first one did. -/
theorem between {own' : String → Prop} {opening closing : Emission → Emission} {x : Emitting Unit}
    (hx : Emitting.AppendsOnly own' x)
    (hkeeps : ∀ st st', (opening st).Keeps own' st' → st.Keeps own (closing st'))
    (hopening : ∀ st before,
      opening { st with lines := before } = { opening st with lines := before })
    (hclosing : ∀ st before,
      closing { st with lines := before } = { closing st with lines := before }) :
    Emitting.AppendsOnly own (do modify opening; x; modify closing) := by
  intro st a st₃ h
  obtain ⟨_, st₁, h₁, h⟩ := Emitting.exists_of_run_bind h
  cases h₁
  obtain ⟨_, st₂, h₂, h₃⟩ := Emitting.exists_of_run_bind h
  cases h₃
  obtain ⟨hinside, added, hrun⟩ := hx _ _ _ h₂
  refine ⟨hkeeps st st₂ hinside, added, fun before => ?_⟩
  change (x >>= fun _ => modify closing).run (opening { st with lines := before }) = _
  rw [hopening, EStateM.run_bind, hrun before]
  exact congrArg (EStateM.Result.ok _) (hclosing st₂ _)

/-- An indented emission only appends, and the indentation is the same behind it. -/
theorem indented {x : Emitting Unit} (hx : Emitting.AppendsOnly own x) :
    Emitting.AppendsOnly own (indented x) := by
  refine .between hx (fun st st' h => ?_) (fun _ _ => rfl) fun _ _ => rfl
  exact ⟨congrArg (· - 1) h.indent, h.outer, h.lookup⟩

/-- Whatever names are declared in a frame, they are gone with the frame. -/
theorem framed {x : Emitting Unit} (hx : Emitting.AppendsOnly (fun _ => True) x) :
    Emitting.AppendsOnly own (framed x) := by
  refine .between hx (fun st st' h => ?_) (fun _ _ => rfl) fun _ _ => rfl
  have hscope : st'.bindings.pop.scope = st.bindings.scope := Scope.pop_eq_of_outer h.outer
  refine ⟨h.indent, congrArg Scope.outer hscope, fun name _ => ?_⟩
  exact congrArg (Scope.lookup? · name) hscope

/-- The lines after a run are those before it and the ones it adds. -/
theorem lines_of_run {st st' : Emission} {a : α} {added : List String} (h : x.run st = .ok a st')
    (hrun : ∀ before,
      x.run { st with lines := before } = .ok a { st' with lines := before ++ added }) :
    st'.lines = st.lines ++ added := by
  obtain ⟨-, hst⟩ := EStateM.Result.ok.inj ((hrun st.lines).symm.trans h)
  exact (congrArg Emission.lines hst).symm

/-- Lines that are kept apart are the same whatever has been emitted before, and none is added. -/
theorem captured {x : Emitting Unit} (hx : Emitting.AppendsOnly own x) :
    Emitting.AppendsOnly own (captured x) := by
  intro st a st₃ h
  obtain ⟨_, st₁, h₁, h⟩ := Emitting.exists_of_run_bind h
  cases h₁
  obtain ⟨_, st₁, h₁, h⟩ := Emitting.exists_of_run_bind h
  cases h₁
  obtain ⟨_, st₂, h₂, h₃⟩ := Emitting.exists_of_run_bind h
  cases h₃
  obtain ⟨hkeeps, added, hrun⟩ := hx _ _ _ h₂
  have hlines : st₂.lines = [] ++ added := lines_of_run h₂ hrun
  refine ⟨⟨hkeeps.indent, hkeeps.outer, hkeeps.lookup⟩, [], fun before => ?_⟩
  change (x >>= fun _ => _ : Emitting (List String)).run { st with lines := [] } = _
  rw [EStateM.run_bind, hrun [], List.append_nil, hlines]
  rfl

/-- Emitting an expression appends no line. -/
theorem emitExpr (cx : FnContext) (pos : ReadPosition) (e : Expr) :
    Emitting.AppendsOnly own (emitExpr cx pos e) :=
  .bind .bindings fun _ => .rendering _

/-- Emitting a value appends no line. -/
theorem emitValue (cx : FnContext) (expected : Option Ty) (e : Expr) :
    Emitting.AppendsOnly own (emitValue cx expected e) :=
  .bind .bindings fun _ => .rendering _

/-- Emitting the target of an assignment appends no line. -/
theorem emitTarget (cx : FnContext) (target : Expr) :
    Emitting.AppendsOnly own (emitTarget cx target) := by
  unfold Oxidize.emitTarget
  split
  · exact .pure _
  · exact .emitExpr cx .borrow target

/-- Emitting the pattern of a case appends no line. -/
theorem emitCasePattern (cx : FnContext) (scrutineeTy : Ty) (value : Option Expr) :
    Emitting.AppendsOnly own (emitCasePattern cx scrutineeTy value) := by
  cases value with
  | none => exact .pure _
  | some value =>
    change Emitting.AppendsOnly own (emitPattern cx scrutineeTy value)
    unfold emitPattern
    split
    all_goals first
      | exact .pure _
      | exact .bind (.emitExpr cx .borrow value) fun _ => .pure _

end Emitting.AppendsOnly

/-! ## Statements -/

/-- The variable that a statement declares on its own level. -/
def Stmt.declaredName? : Stmt → Option String
  | .letVar _ name _ _ _ => some name
  | _ => none

section
variable {cx : FnContext}

/-- The arm of a case only appends if its body does. -/
theorem appendsOnly_arm {own : String → Prop} (pattern : String) {body : List Stmt}
    (h : Emitting.AppendsOnly (fun _ => True) (Stmt.emitCaseBody cx body)) :
    Emitting.AppendsOnly own
      (if isEmptyCase body then line (pattern ++ " => \x7b\x7d")
        else do
          line (pattern ++ " => \x7b")
          indented (framed (Stmt.emitCaseBody cx body))
          line "\x7d") := by
  split
  · exact .line _
  · exact .bind (.line _) fun _ => .bind (.indented (.framed h)) fun _ => .line _

/-- The alternative of a conditional only appends if its statements do. -/
theorem appendsOnly_alternative {own : String → Prop} {stmts : List Stmt}
    (h : Emitting.AppendsOnly (fun _ => True) (Stmt.emitList cx stmts)) :
    Emitting.AppendsOnly own
      (do line "\x7d else \x7b"; indented (framed (Stmt.emitList cx stmts))) :=
  .bind (.line _) fun _ => .indented (.framed h)

mutual

/-- Emitting a statement only appends, and declares at most the variable of the statement. -/
theorem Stmt.emit_appendsOnly : (s : Stmt) → {own : String → Prop} →
    (∀ name, s.declaredName? = some name → own name) → Emitting.AppendsOnly own (s.emit cx)
  | .letVar _ name ty mutable none, own, h => by
    rw [Stmt.emit]
    exact .bind (.pure _) fun _ => .bind (.declare (h name rfl)) fun _ => .line _
  | .letVar _ name ty mutable (some init), own, h => by
    rw [Stmt.emit]
    exact .bind (.emitValue cx ty init) fun _ => .bind (.pure _) fun _ =>
      .bind (.declare (h name rfl)) fun _ => .line _
  | .assign _ target value, own, _ => by
    rw [Stmt.emit]
    exact .bind (.emitTarget cx target) fun _ => .bind (.emitValue cx _ value) fun _ => .line _
  | .ret _ (some value), own, _ => by
    rw [Stmt.emit]
    exact .bind (.emitValue cx _ value) fun _ => .line _
  | .ret _ none, own, _ | .breakLoop _, own, _ | .continueLoop _, own, _ => by
    rw [Stmt.emit]
    exact .line _
  | .ifElse _ cond thenBlock elseBlock, own, _ => by
    rw [Stmt.emit]
    exact .bind (.emitExpr cx .borrow cond) fun _ => .bind (.line _) fun _ =>
      .bind thenBlock.emit_appendsOnly fun _ =>
        .bind (Block.emitElse_appendsOnly elseBlock) fun _ => .line _
  | .whileLoop _ cond body, own, _ => by
    rw [Stmt.emit]
    exact .bind (.emitExpr cx .borrow cond) fun _ => .bind (.line _) fun _ =>
      .bind body.emit_appendsOnly fun _ => .line _
  | .forEach _ var iterable body, own, _ => by
    rw [Stmt.emit]
    -- The frame of the loop variable is closed after the loop.
    refine .bind (.emitExpr cx .borrow iterable) fun _ => .bind (.framed ?_) fun _ => .line _
    exact .bind (.declare trivial) fun _ => .bind (.line _) fun _ => body.emit_appendsOnly
  | .switch _ scrutinee cases, own, _ => by
    rw [Stmt.emit]
    refine .bind (.emitExpr cx .borrow scrutinee) fun _ => .bind (.line _) fun _ =>
      .bind (.indented ?_) fun _ => .line _
    refine .bind (SwitchCase.emitArms_appendsOnly _ cases) fun arms =>
      .bind (.append _) fun _ => .bind (.append _) fun _ => ?_
    split
    · exact .pure _
    · exact .line _
  | .expr e, own, _ => by
    rw [Stmt.emit]
    exact .bind (.emitExpr cx .value e) fun _ => .line _
  | .block body, own, _ => by
    rw [Stmt.emit]
    exact .bind (.line _) fun _ => .bind body.emit_appendsOnly fun _ => .line _

/-- Emitting statements only appends; each may declare a variable on their level. -/
theorem Stmt.emitList_appendsOnly : (ss : List Stmt) →
    Emitting.AppendsOnly (fun _ => True) (Stmt.emitList cx ss)
  | [] => .pure _
  | s :: ss => by
    rw [Stmt.emitList]
    exact .bind (s.emit_appendsOnly fun _ _ => trivial) fun _ => Stmt.emitList_appendsOnly ss

/-- Emitting a block only appends, and its variables are gone behind it. -/
theorem Block.emit_appendsOnly : (body : Block) → {own : String → Prop} →
    Emitting.AppendsOnly own (body.emit cx)
  | ⟨_, stmts⟩, own => by
    rw [Block.emit]
    exact .indented (.framed (Stmt.emitList_appendsOnly stmts))

/-- Emitting an alternative only appends. -/
theorem Block.emitElse_appendsOnly : (body : Option Block) → {own : String → Prop} →
    Emitting.AppendsOnly own (Block.emitElse cx body)
  | none, own => .pure _
  | some ⟨_, [s]⟩, own => by
    cases s with
    | ifElse span cond thenBlock elseBlock =>
      rw [Block.emitElse]
      exact .bind (.emitExpr cx .borrow cond) fun _ => .bind (.line _) fun _ =>
        .bind thenBlock.emit_appendsOnly fun _ => Block.emitElse_appendsOnly elseBlock
    | _ => exact appendsOnly_alternative (Stmt.emitList_appendsOnly _)
  | some ⟨_, []⟩, own => appendsOnly_alternative (Stmt.emitList_appendsOnly [])
  | some ⟨_, s :: s' :: ss⟩, own => by
    rw [Block.emitElse]
    · exact appendsOnly_alternative (Stmt.emitList_appendsOnly (s :: s' :: ss))
    · nofun

/-- Emitting the arms of a switch only appends. -/
theorem SwitchCase.emitArms_appendsOnly (scrutineeTy : Ty) :
    (cases : List SwitchCase) → {own : String → Prop} →
      Emitting.AppendsOnly own (SwitchCase.emitArms cx scrutineeTy cases)
  | [], own => .pure _
  | ⟨_, value, body, _⟩ :: cases, own => by
    rw [SwitchCase.emitArms]
    refine .bind (.emitCasePattern cx scrutineeTy value) fun pattern => ?_
    have harms : Emitting.AppendsOnly own _ :=
      .bind (.captured (appendsOnly_arm pattern (Stmt.emitCaseBody_appendsOnly body))) fun lines =>
        .bind (SwitchCase.emitArms_appendsOnly scrutineeTy cases) fun arms =>
          .pure (⟨value.isNone, lines⟩ :: arms)
    dsimp only
    split
    · exact .bind (.noteFallthrough pattern) fun _ => harms
    · exact harms

/-- Emitting the body of a case only appends. -/
theorem Stmt.emitCaseBody_appendsOnly : (ss : List Stmt) →
    Emitting.AppendsOnly (fun _ => True) (Stmt.emitCaseBody cx ss)
  | [] => .pure _
  | [s] => by
    cases s with
    | breakLoop span => exact .pure _
    | _ => exact .bind (Stmt.emit_appendsOnly _ fun _ _ => trivial) fun _ => .pure _
  | s :: s' :: ss => by
    rw [Stmt.emitCaseBody]
    · exact .bind (s.emit_appendsOnly fun _ _ => trivial) fun _ =>
        Stmt.emitCaseBody_appendsOnly (s' :: ss)
    · nofun

end

end

/-- **Emitting a statement only appends.** Where it succeeds, the text is what it was before,
followed by lines that are the same whatever stood there before. The level of indentation and the
number of frames are as before, and every name but that of a variable that the statement itself
declares stands for the same binding as before. -/
theorem Stmt.emit_onlyAppends (cx : FnContext) (s : Stmt) (st st' : Emission)
    (h : (s.emit cx).run st = .ok () st') :
    (∃ added, st'.lines = st.lines ++ added ∧
      joinLines st'.lines = joinLines st.lines ++ joinLines added ∧
      ∀ before, (s.emit cx).run { st with lines := before } =
        .ok () { st' with lines := before ++ added }) ∧
    st'.indent = st.indent ∧
    st'.bindings.scope.depth = st.bindings.scope.depth ∧
    ∀ name, s.declaredName? ≠ some name →
      st'.bindings.lookup? name = st.bindings.lookup? name := by
  have happends : Emitting.AppendsOnly (fun name => s.declaredName? = some name) (s.emit cx) :=
    s.emit_appendsOnly fun _ => id
  obtain ⟨hkeeps, added, hrun⟩ := happends st () st' h
  have hlines : st'.lines = st.lines ++ added := Emitting.AppendsOnly.lines_of_run h hrun
  refine ⟨⟨added, hlines, ?_, hrun⟩, hkeeps.indent, ?_, hkeeps.lookup⟩
  · rw [hlines, joinLines, List.map_append, String.join_append]
    rfl
  · rw [Scope.depth, Scope.depth, hkeeps.outer]

/-- `switch (b) { default: let b = b; switch (b) { case true: return; } case true: break; }` -/
def Stmt.nestedSwitches : Stmt :=
  let b := Expr.ofKind (.ident "b")
  let yes := Expr.ofKind (.literal (.bool true))
  .switch .zero b [
    .ofBody none [.letVar .zero "b" none false (some b),
      .switch .zero b [.ofBody (some yes) [.ret .zero none]]],
    .ofBody (some yes) [.breakLoop .zero]]

/-- A function of a truth value `b` with the switches for a body. -/
def FunctionDecl.nestsSwitches : FunctionDecl :=
  ⟨.zero, "f", [⟨"b", .bool, false⟩], .void, .ofStmts [.nestedSwitches], false, none⟩

/-- The default arm comes last, and the variable in it is gone at the end. -/
theorem Stmt.nestedSwitches_onlyAppends :
    let f := FunctionDecl.nestsSwitches
    let run := (nestedSwitches.emit (f.context .empty .empty)).run
    let st : Emission := ⟨f.signatureBindings, [], 1, ["fn f(b: bool) \x7b"], 0, []⟩
    let added := ["    match b \x7b", "        true => \x7b\x7d", "        _ => \x7b",
      "            let b = b;", "            match b \x7b", "                true => \x7b",
      "                    return;", "                \x7d", "                _ => \x7b\x7d",
      "            \x7d", "        \x7d", "    \x7d"]
    ∃ st', run st = .ok () st' ∧ st'.lines = "fn f(b: bool) \x7b" :: added ∧
      run { st with lines := [] } = .ok () { st' with lines := added } ∧
      st'.indent = 1 ∧ st'.bindings.lookup? "b" = some 0 := by
  intro f run st added
  have hrun : (EStateM.Result.casesOn (motive := fun _ => Bool) (run st)
      (fun _ st' => decide (st'.lines = "fn f(b: bool) \x7b" :: added))
      fun _ _ => false) = true := by decide +kernel
  cases hst : run st with
  | ok _ st' =>
    rw [hst] at hrun
    have hlines := of_decide_eq_true hrun
    obtain ⟨⟨added', hadded, -, happend⟩, hindent, -, hlookup⟩ :=
      emit_onlyAppends _ nestedSwitches st st' hst
    obtain rfl : added = added' := by simpa [st] using hlines.symm.trans hadded
    exact ⟨st', rfl, hlines, happend [], hindent, hlookup "b" nofun⟩
  | error _ st' =>
    rw [hst] at hrun
    cases hrun

end Oxidize
