import Mathlib.Data.List.Forall2
import Oxidize.Proofs.Emit.Follow
import Oxidize.Proofs.Usage.Declarations

/-!
# Lines that declare variables

`Stmt.layoutList` says which of the lines of statements declare a variable and which one, in the
order in which they are emitted. `Emitting.LaysOut` says of an emission how many variables it numbers
and that its lines are as laid out, provided that the analysis decides as `Declaration.changed` does
for these numbers; it has one rule for each way in which emissions are put together, and
`Stmt.emit_laysOut` goes through the statements with these rules. No declaration is left without a
line (`Stmt.layoutList_perm`).
-/

namespace Oxidize

open Emitting (rendering line append note declare indented framed captured)

/-! ## Lines -/

/-- The line of a declaration, without its indentation and with the given text for the expression in
it. -/
def Declaration.text (d : Declaration) (isMut : Bool) (code : String) : String :=
  match d.kind with
  | .letVar ty hasValue =>
    "let " ++ mutText isMut ++ Name.value d.name ++ (ty.elim "" fun t => ": " ++ t.text .loc) ++
      (if hasValue then " = " ++ code else "") ++ ";"
  | .loop => "for " ++ mutText isMut ++ Name.value d.name ++ " in " ++ code ++ " \x7b"

/-- The line of a declaration says `mut` if the variable is marked so or is changed. -/
def IsLineOf (r : Registry) : Option Declaration → String → Prop
  | none, _ => True
  | some d, text =>
    ∃ level code, text = indentation level ++ d.text (d.mutable || d.changed r) code

mutual

/-- The lines of a statement in the order in which they are emitted, each with the variable that it
declares, if it is the line of a declaration. -/
def Stmt.layout (rest : List Stmt) : Stmt → List (Option Declaration)
  | .letVar _ name ty mutable init => [some ⟨.letVar ty init.isSome, name, mutable, rest⟩]
  | .assign _ _ _ | .ret _ _ | .breakLoop _ | .continueLoop _ | .expr _ => [none]
  | .ifElse _ _ thenBlock elseBlock =>
    none :: (thenBlock.layout ++ (Block.layoutElse elseBlock ++ [none]))
  | .whileLoop _ _ body | .block body => none :: (body.layout ++ [none])
  | .forEach _ var _ body => some ⟨.loop, var, false, body.stmts⟩ :: (body.layout ++ [none])
  | .switch _ _ cases =>
    let arms := SwitchCase.layouts cases
    none :: (((arms.filter (!·.1)).flatMap (·.2) ++ ((arms.filter (·.1)).flatMap (·.2) ++
      if arms.any (·.1) then [] else [none])) ++ [none])

/-- The lines of statements. -/
def Stmt.layoutList : List Stmt → List (Option Declaration)
  | [] => []
  | s :: ss => s.layout ss ++ Stmt.layoutList ss

/-- The lines inside a block. -/
def Block.layout : Block → List (Option Declaration)
  | ⟨_, stmts⟩ => Stmt.layoutList stmts

/-- The lines after the first block of a conditional. -/
def Block.layoutElse : Option Block → List (Option Declaration)
  | none => []
  | some ⟨_, [.ifElse _ _ thenBlock elseBlock]⟩ =>
    none :: (thenBlock.layout ++ Block.layoutElse elseBlock)
  | some ⟨_, stmts⟩ => none :: Stmt.layoutList stmts

/-- The lines of the arms of a switch, each with whether it is the default arm. -/
def SwitchCase.layouts : List SwitchCase → List (Bool × List (Option Declaration))
  | [] => []
  | ⟨_, value, body, _⟩ :: cases =>
    (value.isNone, if isEmptyCase body then [none] else none :: (Stmt.caseLayout body ++ [none])) ::
      SwitchCase.layouts cases

/-- The lines of the body of a case, without a `break` at its end. -/
def Stmt.caseLayout : List Stmt → List (Option Declaration)
  | [] => []
  | [.breakLoop _] => []
  | s :: ss => s.layout ss ++ Stmt.caseLayout ss

end

/-! ## Emission -/

/-- The analysis decides on the variables with the numbers from `next` on as it is said of the
declarations. -/
def FnContext.DecidesAs (cx : FnContext) (r : Registry) (next : BindingId)
    (ds : List Declaration) : Prop :=
  ∀ j d, ds[j]? = some d → cx.usage.needsMut (next + j) = d.changed r

namespace FnContext.DecidesAs

variable {cx : FnContext} {r : Registry} {next : BindingId} {ds ds' : List Declaration}

/-- What holds for all declarations holds for the first ones. -/
theorem left (h : cx.DecidesAs r next (ds ++ ds')) : cx.DecidesAs r next ds := by
  intro j d hd
  refine h j d ?_
  rw [List.getElem?_append_left (List.getElem?_eq_some_iff.1 hd).1, hd]

/-- What holds for all declarations holds for the last ones, whose numbers go on from the first
ones. -/
theorem right (h : cx.DecidesAs r next (ds ++ ds')) : cx.DecidesAs r (next + ds.length) ds' := by
  intro j d hd
  rw [Nat.add_assoc]
  refine h (ds.length + j) d ?_
  rw [List.getElem?_append_right (Nat.le_add_right _ _), Nat.add_sub_cancel_left, hd]

end FnContext.DecidesAs

section
variable {cx : FnContext} {r : Registry} {α β : Type}

/-- The emission declares no variable and writes no line. -/
def Emitting.Idle (x : Emitting α) : Prop :=
  ∀ st a st', x.run st = .ok a st' →
    st'.bindings.next = st.bindings.next ∧ st'.lines = st.lines

namespace Emitting.Idle

/-- A result that is given writes nothing. -/
theorem pure (a : α) : Emitting.Idle (Pure.pure a : Emitting α) := by
  rintro st a' st' ⟨⟩
  exact ⟨rfl, rfl⟩

/-- Two idle emissions in a row are idle. -/
theorem bind {x : Emitting α} {f : α → Emitting β} (hx : Emitting.Idle x)
    (hf : ∀ a, Emitting.Idle (f a)) : Emitting.Idle (x >>= f) := by
  intro st c st'' h
  obtain ⟨a, st', h₁, h₂⟩ := Emitting.exists_of_run_bind h
  obtain ⟨hnext, hlines⟩ := hx st a st' h₁
  obtain ⟨hnext', hlines'⟩ := hf a st' c st'' h₂
  exact ⟨hnext'.trans hnext, hlines'.trans hlines⟩

/-- A change of the state is idle if it keeps the lines and the number of variables. -/
theorem modify {f : Emission → Emission} (hb : ∀ st, (f st).bindings.next = st.bindings.next)
    (hl : ∀ st, (f st).lines = st.lines) : Emitting.Idle (modify f : Emitting PUnit) := by
  rintro st a' st' ⟨⟩
  exact ⟨hb st, hl st⟩

/-- Looking at the bindings is idle. -/
theorem bindings : Emitting.Idle Emitting.bindings := by
  rintro st a st' ⟨⟩
  exact ⟨rfl, rfl⟩

/-- Rendering is idle. -/
theorem rendering (x : Rendering α) : Emitting.Idle (rendering x) := by
  intro st a st' h
  change Emitting.rendering x st = .ok a st' at h
  unfold Emitting.rendering at h
  split at h
  · cases h
    exact ⟨rfl, rfl⟩
  · cases h

/-- Rendering an expression is idle. -/
theorem emitExpr (cx : FnContext) (pos : ReadPosition) (e : Expr) :
    Emitting.Idle (emitExpr cx pos e) :=
  .bind .bindings fun _ => .rendering _

/-- Rendering a value is idle. -/
theorem emitValue (cx : FnContext) (expected : Option Ty) (e : Expr) :
    Emitting.Idle (emitValue cx expected e) :=
  .bind .bindings fun _ => .rendering _

/-- Rendering the target of an assignment is idle. -/
theorem emitTarget (cx : FnContext) (target : Expr) : Emitting.Idle (emitTarget cx target) := by
  unfold Oxidize.emitTarget
  split
  · exact .pure _
  · exact .emitExpr cx .borrow target

/-- Rendering the pattern of a case is idle. -/
theorem emitCasePattern (cx : FnContext) (scrutineeTy : Ty) (value : Option Expr) :
    Emitting.Idle (emitCasePattern cx scrutineeTy value) := by
  cases value with
  | none => exact .pure _
  | some value =>
    change Emitting.Idle (emitPattern cx scrutineeTy value)
    unfold emitPattern
    split
    all_goals first
      | exact .pure _
      | exact .bind (.emitExpr cx .borrow value) fun _ => .pure _

/-- Recording a case that falls through is idle. -/
theorem noteFallthrough (pattern : String) : Emitting.Idle (noteFallthrough pattern) :=
  .bind (.modify (fun _ => rfl) fun _ => rfl) fun _ => .modify (fun _ => rfl) fun _ => rfl

end Emitting.Idle

/-- The emission numbers the declarations in order and, if the analysis decides on them as it
should, writes lines with a property that may depend on the result. -/
def Emitting.Writes (cx : FnContext) (r : Registry) (ds : List Declaration)
    (Q : α → List String → Prop) (x : Emitting α) : Prop :=
  ∀ st a st', x.run st = .ok a st' → cx.DecidesAs r st.bindings.next ds →
    st'.bindings.next = st.bindings.next + ds.length ∧
      ∃ lines, st'.lines = st.lines ++ lines ∧ Q a lines

/-- The emission numbers the declarations in order and writes lines as laid out. -/
abbrev Emitting.LaysOut (cx : FnContext) (r : Registry) (ds : List Declaration)
    (layout : List (Option Declaration)) (x : Emitting α) : Prop :=
  Emitting.Writes cx r ds (fun _ => List.Forall₂ (IsLineOf r) layout) x

namespace Emitting.Writes

variable {ds ds' : List Declaration} {Q : α → List String → Prop} {R : β → List String → Prop}
  {x : Emitting α} {f : α → Emitting β}

/-- What two emissions in a row write, and the declarations of both. -/
theorem bind {S : α → β → List String → Prop} (hx : Emitting.Writes cx r ds Q x)
    (hf : ∀ a l, Q a l → Emitting.Writes cx r ds' (S a) (f a))
    (hlines : ∀ a c l l', Q a l → S a c l' → R c (l ++ l')) :
    Emitting.Writes cx r (ds ++ ds') R (x >>= f) := by
  intro st c st'' h hd
  obtain ⟨a, st', h₁, h₂⟩ := Emitting.exists_of_run_bind h
  obtain ⟨hnext, l, hl, hQ⟩ := hx st a st' h₁ hd.left
  obtain ⟨hnext', l', hl', hS⟩ := hf a l hQ st' c st'' h₂ (hnext ▸ hd.right)
  refine ⟨?_, l ++ l', ?_, hlines a c l l' hQ hS⟩
  · rw [hnext', hnext, List.length_append, Nat.add_assoc]
  · rw [hl', hl, List.append_assoc]

/-- An idle emission in front changes nothing. -/
theorem idle_bind (hx : Emitting.Idle x) (hf : ∀ a, Emitting.Writes cx r ds R (f a)) :
    Emitting.Writes cx r ds R (x >>= f) := by
  intro st c st'' h hd
  obtain ⟨a, st', h₁, h₂⟩ := Emitting.exists_of_run_bind h
  obtain ⟨hnext, hl⟩ := hx st a st' h₁
  have hstep := hf a st' c st'' h₂ (hnext ▸ hd)
  rwa [hnext, hl] at hstep

/-- The result may be changed behind the emission. -/
theorem map {g : α → β} (hx : Emitting.Writes cx r ds Q x) (hg : ∀ a l, Q a l → R (g a) l) :
    Emitting.Writes cx r ds R (x >>= fun a => pure (g a)) := by
  intro st c st' h hd
  obtain ⟨a, _, h₁, h₂⟩ := Emitting.exists_of_run_bind h
  cases h₂
  obtain ⟨hnext, l, hl, hQ⟩ := hx st a st' h₁ hd
  exact ⟨hnext, l, hl, hg a l hQ⟩

end Emitting.Writes

namespace Emitting.LaysOut

variable {ds ds' : List Declaration} {layout layout' : List (Option Declaration)}
  {x : Emitting α} {f : α → Emitting β}

/-- An idle emission lays out nothing. -/
theorem idle (hx : Emitting.Idle x) : Emitting.LaysOut cx r [] [] x := by
  intro st a st' h _
  obtain ⟨hnext, hl⟩ := hx st a st' h
  exact ⟨hnext, [], by rw [hl, List.append_nil], .nil⟩

/-- Two emissions in a row are laid out one after the other. -/
theorem bind (hx : Emitting.LaysOut cx r ds layout x)
    (hf : ∀ a, Emitting.LaysOut cx r ds' layout' (f a)) :
    Emitting.LaysOut cx r (ds ++ ds') (layout ++ layout') (x >>= f) :=
  Emitting.Writes.bind hx (fun a _ _ => hf a) fun _ _ _ _ hl hl' => List.rel_append hl hl'

/-- An idle emission in front keeps the layout. -/
theorem idle_bind (hx : Emitting.Idle x) (hf : ∀ a, Emitting.LaysOut cx r ds layout (f a)) :
    Emitting.LaysOut cx r ds layout (x >>= f) :=
  Emitting.Writes.idle_bind hx hf

/-- An idle emission behind keeps the layout. -/
theorem bind_idle (hx : Emitting.LaysOut cx r ds layout x) (hf : ∀ a, Emitting.Idle (f a)) :
    Emitting.LaysOut cx r ds layout (x >>= f) := by
  have h := hx.bind fun a => idle (hf a)
  rwa [List.append_nil, List.append_nil] at h

/-- Captured lines that are appended keep their layout. -/
theorem append {lines : List String} (h : List.Forall₂ (IsLineOf r) layout lines) :
    Emitting.LaysOut cx r [] layout (append lines) := by
  rintro st a st' ⟨⟩ _
  exact ⟨rfl, lines, rfl, h⟩

/-- A line is laid out as one that declares nothing. -/
theorem line (text : String) : Emitting.LaysOut cx r [] [none] (line text) := by
  rintro st a st' ⟨⟩ _
  exact ⟨rfl, [indentation st.indent ++ text], rfl, .cons trivial .nil⟩

/-- A line comes before the rest. -/
theorem line_bind {text : String} {f : Unit → Emitting β}
    (hf : Emitting.LaysOut cx r ds layout (f ())) :
    Emitting.LaysOut cx r ds (none :: layout) (Emitting.line text >>= f) :=
  (line text).bind fun _ => hf

/-- A line comes after the rest. -/
theorem bind_line {text : α → String} (hx : Emitting.LaysOut cx r ds layout x) :
    Emitting.LaysOut cx r ds (layout ++ [none]) (x >>= fun a => Emitting.line (text a)) := by
  have h := hx.bind fun a => line (text a)
  rwa [List.append_nil] at h

/-- The line of a declaration. -/
theorem declare (d : Declaration) (code : String) :
    Emitting.LaysOut cx r [d] [some d] (do
      let id ← declare d.name
      Emitting.line (d.text (d.mutable || cx.usage.needsMut id) code)) := by
  rintro st a st' ⟨⟩ hd
  have hmut : cx.usage.needsMut st.bindings.next = d.changed r := hd 0 d rfl
  refine ⟨Bindings.next_declare .., _, rfl, .cons ⟨st.indent, code, ?_⟩ .nil⟩
  rw [← hmut]

/-- Indentation keeps the layout. -/
theorem indented {x : Emitting Unit} (hx : Emitting.LaysOut cx r ds layout x) :
    Emitting.LaysOut cx r ds layout (indented x) :=
  .idle_bind (.modify (fun _ => rfl) fun _ => rfl) fun _ =>
    hx.bind_idle fun _ => .modify (fun _ => rfl) fun _ => rfl

/-- A frame for variables keeps the layout. -/
theorem framed {x : Emitting Unit} (hx : Emitting.LaysOut cx r ds layout x) :
    Emitting.LaysOut cx r ds layout (framed x) :=
  .idle_bind (.modify (fun _ => rfl) fun _ => rfl) fun _ =>
    hx.bind_idle fun _ => .modify (fun _ => rfl) fun _ => rfl

/-- The lines of an emission, kept apart. -/
theorem captured {x : Emitting Unit} (hx : Emitting.LaysOut cx r ds layout x) :
    Emitting.Writes cx r ds (fun lines l => l = [] ∧ List.Forall₂ (IsLineOf r) layout lines)
      (captured x) := by
  intro st a st' h hd
  obtain ⟨mid, hrun, rfl, rfl⟩ := Emitting.exists_of_run_captured h
  obtain ⟨hnext, lines, hlines, hlayout⟩ := hx _ _ _ hrun hd
  refine ⟨hnext, [], (List.append_nil _).symm, rfl, ?_⟩
  rw [hlines]
  exact hlayout

end Emitting.LaysOut

/-! ## Statements -/

/-- The arms are of the given kinds and have lines that match. -/
def ArmsMatch {γ : Type} (R : γ → String → Prop) (layouts : List (Bool × List γ)) (arms : List Arm) :
    Prop :=
  List.Forall₂ (fun layout arm => layout.1 = arm.isDefault ∧ List.Forall₂ R layout.2 arm.lines) layouts
    arms

/-- The arms have lines as laid out. -/
abbrev ArmsLaidOut (r : Registry) (layouts : List (Bool × List (Option Declaration)))
    (arms : List Arm) : Prop :=
  ArmsMatch (IsLineOf r) layouts arms

namespace ArmsMatch

variable {γ : Type} {R : γ → String → Prop} {layouts : List (Bool × List γ)} {arms : List Arm}

/-- The lines of the arms of the same kind. -/
theorem lines (h : ArmsMatch R layouts arms) (p : Bool → Bool) :
    List.Forall₂ R ((layouts.filter (p ·.1)).flatMap (·.2))
      ((arms.filter (p ·.isDefault)).flatMap (·.lines)) := by
  refine List.rel_flatMap (List.rel_filter (fun _ _ hab => ?_) h) fun _ _ hab => hab.2
  dsimp only
  rw [hab.1]

/-- There is a default arm among both or among neither. -/
theorem any_isDefault (h : ArmsMatch R layouts arms) :
    arms.any (·.isDefault) = layouts.any (·.1) := by
  induction h with
  | nil => rfl
  | cons hab _ ih => rw [List.any_cons, List.any_cons, ih, hab.1]

end ArmsMatch

/-- The lines of the arms, the default ones last. -/
theorem laysOut_arms {layouts : List (Bool × List (Option Declaration))} {arms : List Arm}
    (h : ArmsLaidOut r layouts arms) :
    Emitting.LaysOut cx r []
      ((layouts.filter (!·.1)).flatMap (·.2) ++ ((layouts.filter (·.1)).flatMap (·.2) ++
        if layouts.any (·.1) then [] else [none]))
      (do
        append ((arms.filter (!·.isDefault)).flatMap (·.lines))
        append ((arms.filter (·.isDefault)).flatMap (·.lines))
        if arms.any (·.isDefault) then pure () else line "_ => \x7b\x7d") := by
  have hlast : Emitting.LaysOut cx r [] (if layouts.any (·.1) then [] else [none])
      (if arms.any (·.isDefault) then pure () else line "_ => \x7b\x7d") := by
    rw [h.any_isDefault]
    split
    · exact .idle (.pure _)
    · exact .line _
  exact (Emitting.LaysOut.append (h.lines (!·))).bind fun _ =>
    (Emitting.LaysOut.append (h.lines (·))).bind fun _ => hlast

/-- An empty case declares nothing. -/
theorem Stmt.declarationsList_of_isEmptyCase {ss : List Stmt} (h : isEmptyCase ss = true) :
    Stmt.declarationsList ss = [] := by
  unfold isEmptyCase at h
  split at h
  · rfl
  · rfl
  · cases h

/-- The lines of an arm. -/
theorem laysOut_arm (pattern : String) {body : List Stmt}
    (h : Emitting.LaysOut cx r (Stmt.declarationsList body) (Stmt.caseLayout body)
      (Stmt.emitCaseBody cx body)) :
    Emitting.LaysOut cx r (Stmt.declarationsList body)
      (if isEmptyCase body then [none] else none :: (Stmt.caseLayout body ++ [none]))
      (if isEmptyCase body then line (pattern ++ " => \x7b\x7d")
        else do
          line (pattern ++ " => \x7b")
          indented (framed (Stmt.emitCaseBody cx body))
          line "\x7d") := by
  split
  · next hempty =>
    rw [Stmt.declarationsList_of_isEmptyCase hempty]
    exact .line _
  · exact .line_bind (.bind_line (.indented (.framed h)))

/-- An arm comes before the others. -/
theorem writes_arm {ds ds' : List Declaration} {layout : List (Option Declaration)}
    {layouts : List (Bool × List (Option Declaration))} {arm : Emitting Unit}
    {arms : Emitting (List Arm)} (isDefault : Bool) (harm : Emitting.LaysOut cx r ds layout arm)
    (harms : Emitting.Writes cx r ds' (fun arms l => l = [] ∧ ArmsLaidOut r layouts arms) arms) :
    Emitting.Writes cx r (ds ++ ds')
      (fun arms l => l = [] ∧ ArmsLaidOut r ((isDefault, layout) :: layouts) arms) (do
        let lines ← captured arm
        let rest ← arms
        return ⟨isDefault, lines⟩ :: rest) := by
  refine harm.captured.bind
    (S := fun lines arms l =>
      l = [] ∧ ∃ rest, arms = ⟨isDefault, lines⟩ :: rest ∧ ArmsLaidOut r layouts rest)
    (fun lines _ _ => harms.map fun rest l h => ⟨h.1, rest, rfl, h.2⟩) ?_
  rintro lines _ l l' ⟨rfl, hlines⟩ ⟨rfl, rest, rfl, hrest⟩
  exact ⟨rfl, .cons ⟨rfl, hlines⟩ hrest⟩

mutual

/-- A statement is emitted as laid out. -/
theorem Stmt.emit_laysOut (rest : List Stmt) :
    (s : Stmt) → Emitting.LaysOut cx r (s.declarations rest) (s.layout rest) (s.emit cx)
  | .letVar _ name ty mutable none => by
    rw [Stmt.emit, Stmt.declarations, Stmt.layout]
    have hline : Emitting.LaysOut cx r _ _ _ :=
      .declare ⟨.letVar ty false, name, mutable, rest⟩ ""
    simpa only [pure_bind, Option.isSome_none, Declaration.text, Bool.false_eq_true, if_false]
      using hline
  | .letVar _ name ty mutable (some init) => by
    rw [Stmt.emit, Stmt.declarations, Stmt.layout]
    simp only [pure_bind]
    refine .idle_bind (.emitValue cx ty init) fun code => ?_
    have hline : Emitting.LaysOut cx r _ _ _ :=
      .declare ⟨.letVar ty true, name, mutable, rest⟩ code
    simpa only [Option.isSome_some, Declaration.text, if_true] using hline
  | .assign _ target value => by
    rw [Stmt.emit, Stmt.declarations, Stmt.layout]
    exact .idle_bind (.emitTarget cx target) fun _ =>
      .idle_bind (.emitValue cx target.ty value) fun _ => .line _
  | .ret _ none => by
    rw [Stmt.emit, Stmt.declarations, Stmt.layout]
    exact .line _
  | .ret _ (some value) => by
    rw [Stmt.emit, Stmt.declarations, Stmt.layout]
    exact .idle_bind (.emitValue cx (some cx.ret) value) fun _ => .line _
  | .ifElse _ cond thenBlock elseBlock => by
    rw [Stmt.emit, Stmt.declarations, Stmt.layout]
    exact .idle_bind (.emitExpr cx .borrow cond) fun _ => .line_bind
      (.bind thenBlock.emit_laysOut fun _ => .bind_line (Block.emitElse_laysOut elseBlock))
  | .whileLoop _ cond body => by
    rw [Stmt.emit, Stmt.declarations, Stmt.layout]
    exact .idle_bind (.emitExpr cx .borrow cond) fun _ => .line_bind (.bind_line body.emit_laysOut)
  | .forEach _ var iterable body => by
    rw [Stmt.emit, Stmt.declarations, Stmt.layout, ← List.cons_append]
    refine .idle_bind (.emitExpr cx .borrow iterable) fun code => .bind_line (.framed ?_)
    have hline : Emitting.LaysOut cx r _ _ _ :=
      .declare ⟨.loop, var, false, body.stmts⟩ (iterationText cx iterable code)
    simp only [Declaration.text, Bool.false_or] at hline
    rw [← bind_assoc]
    exact hline.bind fun _ => body.emit_laysOut
  | .switch _ scrutinee cases => by
    rw [Stmt.emit, Stmt.declarations, Stmt.layout]
    refine .idle_bind (.emitExpr cx .borrow scrutinee) fun _ =>
      .line_bind (.bind_line (.indented ?_))
    have harms := SwitchCase.emitArms_laysOut
      (cx.registry.normalize scrutinee.tyOrVoid).stripRefs cases
    rw [← (SwitchCase.declarationsList cases).append_nil]
    refine harms.bind (fun arms _ h => laysOut_arms h.2) fun _ _ l l' h h' => ?_
    rw [h.1]
    exact h'
  | .breakLoop _ | .continueLoop _ => by
    rw [Stmt.emit, Stmt.declarations, Stmt.layout]
    exact .line _
  | .expr e => by
    rw [Stmt.emit, Stmt.declarations, Stmt.layout]
    exact .idle_bind (.emitExpr cx .value e) fun _ => .line _
  | .block body => by
    rw [Stmt.emit, Stmt.declarations, Stmt.layout]
    exact .line_bind (.bind_line body.emit_laysOut)

/-- Statements in a row are laid out one after the other. -/
theorem Stmt.emitList_laysOut :
    (ss : List Stmt) →
      Emitting.LaysOut cx r (Stmt.declarationsList ss) (Stmt.layoutList ss) (Stmt.emitList cx ss)
  | [] => .idle (.pure _)
  | s :: ss => by
    rw [Stmt.emitList, Stmt.declarationsList, Stmt.layoutList]
    exact .bind (s.emit_laysOut ss) fun _ => Stmt.emitList_laysOut ss

/-- A block is laid out as its statements. -/
theorem Block.emit_laysOut :
    (body : Block) → Emitting.LaysOut cx r body.declarations body.layout (body.emit cx)
  | ⟨_, stmts⟩ => by
    rw [Block.emit, Block.declarations, Block.layout]
    exact .indented (.framed (Stmt.emitList_laysOut stmts))

/-- The alternative of a conditional is laid out between its braces. -/
theorem Block.emitElse_laysOut :
    (body : Option Block) →
      Emitting.LaysOut cx r (Block.declarations? body) (Block.layoutElse body)
        (Block.emitElse cx body)
  | none => .idle (.pure _)
  | some ⟨_, [s]⟩ => by
    cases s with
    | ifElse span cond thenBlock elseBlock =>
      rw [Block.emitElse, Block.layoutElse, Block.declarations?, Block.declarations,
        Stmt.declarationsList, Stmt.declarations, Stmt.declarationsList, List.append_nil]
      exact .idle_bind (.emitExpr cx .borrow cond) fun _ => .line_bind
        (.bind thenBlock.emit_laysOut fun _ => Block.emitElse_laysOut elseBlock)
    | _ => exact .line_bind (.indented (.framed (Stmt.emitList_laysOut _)))
  | some ⟨_, []⟩ => .line_bind (.indented (.framed (Stmt.emitList_laysOut [])))
  | some ⟨_, s :: s' :: ss⟩ => by
    rw [Block.emitElse, Block.layoutElse]
    · exact .line_bind (.indented (.framed (Stmt.emitList_laysOut (s :: s' :: ss))))
    · nofun
    · nofun

/-- The arms of a switch are laid out, each on its own; none of their lines is appended yet. -/
theorem SwitchCase.emitArms_laysOut (scrutineeTy : Ty) :
    (cases : List SwitchCase) →
      Emitting.Writes cx r (SwitchCase.declarationsList cases)
        (fun arms l => l = [] ∧ ArmsLaidOut r (SwitchCase.layouts cases) arms)
        (SwitchCase.emitArms cx scrutineeTy cases)
  | [] => by
    rintro st arms st' ⟨⟩ _
    exact ⟨rfl, [], (List.append_nil _).symm, rfl, .nil⟩
  | ⟨span, value, body, fallthrough⟩ :: cases => by
    rw [SwitchCase.emitArms, SwitchCase.declarationsList, SwitchCase.layouts]
    refine .idle_bind (.emitCasePattern cx scrutineeTy value) fun pattern => ?_
    have harms := writes_arm value.isNone (laysOut_arm pattern (Stmt.emitCaseBody_laysOut body))
      (SwitchCase.emitArms_laysOut scrutineeTy cases)
    dsimp only
    by_cases hfalls : (!(⟨span, value, body, fallthrough⟩ : SwitchCase).endsWithJump) = true
    · rw [if_pos hfalls]
      exact .idle_bind (.noteFallthrough pattern) fun _ => harms
    · rw [if_neg hfalls]
      exact harms

/-- The body of a case is laid out without the `break` that ends it. -/
theorem Stmt.emitCaseBody_laysOut :
    (ss : List Stmt) →
      Emitting.LaysOut cx r (Stmt.declarationsList ss) (Stmt.caseLayout ss)
        (Stmt.emitCaseBody cx ss)
  | [] => .idle (.pure _)
  | [s] => by
    cases s with
    | breakLoop span => exact .idle (.pure _)
    | _ => exact .bind (Stmt.emit_laysOut [] _) fun _ => .idle (.pure _)
  | s :: s' :: ss => by
    rw [Stmt.emitCaseBody, Stmt.declarationsList, Stmt.caseLayout]
    · exact .bind (s.emit_laysOut (s' :: ss)) fun _ => Stmt.emitCaseBody_laysOut (s' :: ss)
    · nofun
    · nofun

end

/-! ## Bodies -/

/-- The last statement of a body is laid out like any other, though it may be written as an
expression. -/
theorem Stmt.emitTail_laysOut (rest : List Stmt) (s : Stmt) :
    Emitting.LaysOut cx r (s.declarations rest) (s.layout rest) (s.emitTail cx) := by
  unfold Stmt.emitTail
  split
  · rw [Stmt.declarations, Stmt.layout]
    exact .idle_bind (.emitValue cx _ _) fun _ => .line _
  · refine .idle_bind .bindings fun _ => ?_
    split
    · exact Stmt.emit_laysOut rest _
    · rw [Stmt.declarations, Stmt.layout]
      exact .idle_bind (.emitValue cx _ _) fun _ => .line _
  · exact Stmt.emit_laysOut rest _

/-- The body of a function is laid out as its statements. -/
theorem Stmt.emitBody_laysOut (ss : List Stmt) :
    Emitting.LaysOut cx r (Stmt.declarationsList ss) (Stmt.layoutList ss)
      (Stmt.emitBody cx ss) := by
  induction ss with
  | nil => exact .idle (.pure _)
  | cons s ss ih =>
    rw [Stmt.declarationsList, Stmt.layoutList]
    cases ss with
    | nil =>
      rw [Stmt.declarationsList, Stmt.layoutList, List.append_nil, List.append_nil, Stmt.emitBody]
      split
      · exact s.emit_laysOut []
      · exact s.emitTail_laysOut []
    | cons s' ss =>
      rw [Stmt.emitBody]
      · exact .bind (s.emit_laysOut (s' :: ss)) fun _ => ih
      · exact List.cons_ne_nil _ _

end

/-! ## Every declaration has a line -/

/-- The variables that lines declare. -/
def declaredOn (layout : List (Option Declaration)) : List Declaration :=
  layout.filterMap id

section

/-- The declarations of two layouts in a row are those of both. -/
@[simp] theorem declaredOn_append (a b : List (Option Declaration)) :
    declaredOn (a ++ b) = declaredOn a ++ declaredOn b :=
  List.filterMap_append

/-- A line without a declaration adds none. -/
@[simp] theorem declaredOn_none (layout : List (Option Declaration)) :
    declaredOn (none :: layout) = declaredOn layout :=
  rfl

/-- A line with a declaration adds it. -/
@[simp] theorem declaredOn_some (d : Declaration) (layout : List (Option Declaration)) :
    declaredOn (some d :: layout) = d :: declaredOn layout :=
  rfl

/-- Without lines nothing is declared. -/
@[simp] theorem declaredOn_nil : declaredOn [] = [] := rfl

/-- The default arms come last, and none of them is lost. -/
theorem declaredOn_arms (layouts : List (Bool × List (Option Declaration))) :
    (declaredOn ((layouts.filter (!·.1)).flatMap (·.2) ++ ((layouts.filter (·.1)).flatMap (·.2) ++
      if layouts.any (·.1) then [] else [none]))).Perm (declaredOn (layouts.flatMap (·.2))) := by
  have hlast : declaredOn (if layouts.any (·.1) then [] else [none]) = [] := by
    split <;> rfl
  rw [declaredOn_append, declaredOn_append, hlast, List.append_nil, ← declaredOn_append,
    ← List.flatMap_append]
  refine (List.Perm.flatMap_right _ ?_).filterMap id
  exact List.perm_append_comm.trans (List.filter_append_perm _ layouts)

mutual

/-- The lines of a statement declare its variables, each on one line. -/
theorem Stmt.layout_perm (rest : List Stmt) :
    (s : Stmt) → (declaredOn (s.layout rest)).Perm (s.declarations rest)
  | .letVar .. => .refl _
  | .assign .. | .ret .. | .breakLoop _ | .continueLoop _ | .expr _ => .refl _
  | .ifElse _ _ thenBlock elseBlock => by
    rw [Stmt.layout, Stmt.declarations]
    simpa using thenBlock.layout_perm.append (Block.layoutElse_perm elseBlock)
  | .whileLoop _ _ body | .block body => by
    rw [Stmt.layout, Stmt.declarations]
    simpa using body.layout_perm
  | .forEach _ var _ body => by
    rw [Stmt.layout, Stmt.declarations]
    simpa using body.layout_perm
  | .switch _ _ cases => by
    rw [Stmt.layout, Stmt.declarations, declaredOn_none, declaredOn_append, declaredOn_none,
      declaredOn_nil, List.append_nil]
    exact (declaredOn_arms _).trans (SwitchCase.layouts_perm cases)

/-- The lines of statements hold all of their declarations. -/
theorem Stmt.layoutList_perm :
    (ss : List Stmt) → (declaredOn (Stmt.layoutList ss)).Perm (Stmt.declarationsList ss)
  | [] => .refl _
  | s :: ss => by
    rw [Stmt.layoutList, Stmt.declarationsList, declaredOn_append]
    exact (s.layout_perm ss).append (Stmt.layoutList_perm ss)

/-- The lines of a block hold all of its declarations. -/
theorem Block.layout_perm :
    (body : Block) → (declaredOn body.layout).Perm body.declarations
  | ⟨_, stmts⟩ => Stmt.layoutList_perm stmts

/-- The lines of an alternative hold all of its declarations. -/
theorem Block.layoutElse_perm :
    (body : Option Block) → (declaredOn (Block.layoutElse body)).Perm (Block.declarations? body)
  | none => .refl _
  | some ⟨_, [s]⟩ => by
    cases s with
    | ifElse span cond thenBlock elseBlock =>
      rw [Block.layoutElse, Block.declarations?, Block.declarations, Stmt.declarationsList,
        Stmt.declarations, Stmt.declarationsList, List.append_nil]
      simpa using thenBlock.layout_perm.append (Block.layoutElse_perm elseBlock)
    | _ => exact Stmt.layoutList_perm _
  | some ⟨_, []⟩ => .refl _
  | some ⟨_, s :: s' :: ss⟩ => by
    rw [Block.layoutElse]
    · exact Stmt.layoutList_perm (s :: s' :: ss)
    · nofun

/-- The lines of the arms hold all declarations of the cases. -/
theorem SwitchCase.layouts_perm :
    (cases : List SwitchCase) →
      (declaredOn ((SwitchCase.layouts cases).flatMap (·.2))).Perm
        (SwitchCase.declarationsList cases)
  | [] => .refl _
  | ⟨_, value, body, _⟩ :: cases => by
    rw [SwitchCase.layouts, SwitchCase.declarationsList, List.flatMap_cons, declaredOn_append]
    refine .append ?_ (SwitchCase.layouts_perm cases)
    dsimp only
    split
    · next hempty =>
      rw [Stmt.declarationsList_of_isEmptyCase hempty]
      exact .refl _
    · simpa using Stmt.caseLayout_perm body

/-- The lines of the body of a case hold all of its declarations. -/
theorem Stmt.caseLayout_perm :
    (ss : List Stmt) → (declaredOn (Stmt.caseLayout ss)).Perm (Stmt.declarationsList ss)
  | [] => .refl _
  | [s] => by
    cases s with
    | breakLoop span => exact .refl _
    | _ =>
      change (declaredOn (Stmt.layout [] _ ++ [])).Perm (Stmt.declarations [] _ ++ [])
      rw [List.append_nil, List.append_nil]
      exact Stmt.layout_perm [] _
  | s :: s' :: ss => by
    rw [Stmt.caseLayout, Stmt.declarationsList, declaredOn_append]
    · exact (s.layout_perm (s' :: ss)).append (Stmt.caseLayout_perm (s' :: ss))
    · nofun

end

end

end Oxidize
