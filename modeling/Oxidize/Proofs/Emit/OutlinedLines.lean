import Mathlib.Data.List.Forall2
import Oxidize.Proofs.Emit.Layout
import Oxidize.Proofs.Emit.LineText
import Oxidize.Proofs.Emit.Outline

/-!
# Lines are emitted as outlined

The lines that are emitted for a function body read as its outline says (`Stmt.emitBody_outlines`), as
long as the names in it are identifiers in the emitted source. `Emitting.Appends` has one rule for each
way in which emissions are put together; it follows the bindings and the lines.
-/

namespace Oxidize

open Emitting (rendering line append note declare indented framed captured)
open Source (lineKind)

/-! ## Emission that appends lines -/

section
variable {cx : FnContext} {b : Bindings} {α β : Type}

/-- From the given bindings, the emission appends lines: the result, the lines and the bindings at the
end have the property. -/
def Emitting.Appends (b : Bindings) (Q : α → List String → Bindings → Prop) (x : Emitting α) : Prop :=
  ∀ st a st', x.run st = .ok a st' → st.bindings = b →
    ∃ lines, st'.lines = st.lines ++ lines ∧ Q a lines st'.bindings

namespace Emitting.Appends

variable {Q : α → List String → Bindings → Prop} {R : β → List String → Bindings → Prop}

/-- A result that is given appends no line. -/
theorem pure {a : α} (h : Q a [] b) : Emitting.Appends b Q (Pure.pure a) := by
  rintro st a' st' ⟨⟩ rfl
  exact ⟨[], (List.append_nil _).symm, h⟩

/-- Two emissions in a row append the lines of both, and the second one starts from the bindings of
the first. -/
theorem bind {x : Emitting α} {f : α → Emitting β} (hx : Emitting.Appends b Q x)
    (hf : ∀ a lines b', Q a lines b' →
      Emitting.Appends b' (fun c lines' => R c (lines ++ lines')) (f a)) :
    Emitting.Appends b R (x >>= f) := by
  intro st c st'' h hb
  obtain ⟨a, st', h₁, h₂⟩ := Emitting.exists_of_run_bind h
  obtain ⟨lines, hlines, hQ⟩ := hx st a st' h₁ hb
  obtain ⟨lines', hlines', hR⟩ := hf a lines st'.bindings hQ st' c st'' h₂ rfl
  exact ⟨lines ++ lines', by rw [hlines', hlines, List.append_assoc], hR⟩

/-- A line is appended behind its indentation. -/
theorem line {text : String} {Q : Unit → List String → Bindings → Prop}
    (h : ∀ level, Q () [indentation level ++ text] b) : Emitting.Appends b Q (line text) := by
  rintro st a st' ⟨⟩ rfl
  exact ⟨_, rfl, h st.indent⟩

/-- Captured lines are appended as they are. -/
theorem append {lines : List String} {Q : Unit → List String → Bindings → Prop} (h : Q () lines b) :
    Emitting.Appends b Q (append lines) := by
  rintro st a st' ⟨⟩ rfl
  exact ⟨lines, rfl, h⟩

/-- Looking at the bindings appends no line. -/
theorem bindings {Q : Bindings → List String → Bindings → Prop} (h : Q b [] b) :
    Emitting.Appends b Q Emitting.bindings := by
  rintro st a st' ⟨⟩ rfl
  exact ⟨[], (List.append_nil _).symm, h⟩

/-- Rendering appends no line and declares nothing. -/
theorem rendering {x : Rendering α} (h : ∀ reads a reads', x.run reads = .ok (a, reads') → Q a [] b) :
    Emitting.Appends b Q (rendering x) := by
  intro st a st' hrun hb
  change Emitting.rendering x st = .ok a st' at hrun
  unfold Emitting.rendering at hrun
  split at hrun
  · next a₀ reads hok =>
    cases hrun
    exact ⟨[], (List.append_nil _).symm, hb ▸ h _ _ _ hok⟩
  · cases hrun

/-- Declaring a variable appends no line. -/
theorem declare {name : String} {Q : BindingId → List String → Bindings → Prop}
    (h : Q b.next [] (b.declare name)) : Emitting.Appends b Q (declare name) := by
  rintro st a st' ⟨⟩ rfl
  exact ⟨[], (List.append_nil _).symm, h⟩

/-- The indentation is a part of the state to start from, and the property is about every such
state. -/
theorem indented {x : Emitting Unit} {Q : Unit → List String → Bindings → Prop}
    (hx : Emitting.Appends b Q x) : Emitting.Appends b Q (indented x) := by
  intro st a st' h hb
  obtain ⟨_, st₁, h₁, h⟩ := Emitting.exists_of_run_bind h
  cases h₁
  obtain ⟨_, st₂, h₂, h⟩ := Emitting.exists_of_run_bind h
  cases h
  obtain ⟨lines, hlines, hQ⟩ := hx _ _ _ h₂ hb
  exact ⟨lines, hlines, hQ⟩

/-- A frame gives up what is declared in it. -/
theorem framed {x : Emitting Unit} {Q : Unit → List String → Bindings → Prop}
    (hx : Emitting.Appends b.push (fun _ lines b' => Q () lines b'.pop) x) :
    Emitting.Appends b Q (framed x) := by
  intro st a st' h hb
  obtain ⟨_, st₁, h₁, h⟩ := Emitting.exists_of_run_bind h
  cases h₁
  obtain ⟨_, st₂, h₂, h⟩ := Emitting.exists_of_run_bind h
  cases h
  exact hx _ _ _ h₂ (congrArg Bindings.push hb)

/-- The lines become the result. -/
theorem captured {x : Emitting Unit} {Q : List String → List String → Bindings → Prop}
    (hx : Emitting.Appends b (fun _ lines b' => Q lines [] b') x) :
    Emitting.Appends b Q (captured x) := by
  intro st a st' h hb
  obtain ⟨mid, hrun, rfl, rfl⟩ := Emitting.exists_of_run_captured h
  obtain ⟨lines, hlines, hQ⟩ := hx _ _ _ hrun hb
  refine ⟨[], (List.append_nil _).symm, ?_⟩
  rw [show mid.lines = lines from hlines]
  exact hQ

end Emitting.Appends

/-- From the given bindings, which it keeps, the emission writes no line and gives a result with the
property. -/
abbrev Emitting.Yields (b : Bindings) (Q : α → Prop) (x : Emitting α) : Prop :=
  Emitting.Appends b (fun a lines b' => lines = [] ∧ b' = b ∧ Q a) x

/-- Rendering keeps the bindings. -/
theorem Rendering.Yields.emitting {x : Bindings → Rendering α} {Q : α → Prop}
    (hx : Rendering.Yields Q (x b)) :
    Emitting.Yields b Q (do rendering (x (← Emitting.bindings))) := by
  refine Emitting.Appends.bind (Q := fun b' lines b'' => lines = [] ∧ b' = b ∧ b'' = b)
    (.bindings ⟨rfl, rfl, rfl⟩) ?_
  rintro _ _ _ ⟨rfl, rfl, rfl⟩
  exact .rendering fun reads a reads' hrun => ⟨rfl, rfl, hx reads a reads' hrun⟩

/-! ## Lines as outlined -/

/-- The line reads as it should, and the text of each of its expressions occurs in it. -/
structure LineNote.Describes (cx : FnContext) (n : LineNote) (text : String) : Prop where
  reads : lineKind text = n.role.kind
  shows : ∀ e ∈ n.shown, e.Holds cx n.bindings text

/-- A larger text holds what a smaller one holds. -/
theorem Expr.Holds.within {e : Expr} {text whole : String} (h : e.Holds cx b text)
    (hwithin : Within text whole) : e.Holds cx b whole := by
  obtain ⟨pos, before, code, read, hrun, hcode⟩ := h
  exact ⟨pos, before, code, read, hrun, hcode.trans hwithin⟩

/-- Indentation does not change how a line reads. -/
theorem LineNote.Describes.indent {n : LineNote} {text : String} (h : n.Describes cx text)
    (level : Nat) : n.Describes cx (indentation level ++ text) := by
  refine ⟨?_, fun e he => (h.shows e he).within ((Within.refl text).right _)⟩
  rw [Source.lineKind_indentation, h.reads]

/-- The names in the line are identifiers in the emitted source. -/
structure LineNote.IsNamed (n : LineNote) : Prop where
  declared : ∀ v ∈ n.role.declares?, Name.isIdentifier v.1 = true
  shown : ∀ e ∈ n.shown, NamedThroughout e.nodes

/-- The emission appends lines as outlined, and ends with the bindings of the outline. -/
abbrev Emitting.Outlines (cx : FnContext) (b : Bindings) (out : Traced LineNote Bindings)
    (x : Emitting α) : Prop :=
  Emitting.Appends b
    (fun _ lines b' => b' = out.value ∧ List.Forall₂ (LineNote.Describes cx) out.trace lines) x

/-- The text is that of an expression at this point. -/
structure Expr.Spelled (cx : FnContext) (b : Bindings) (e : Expr) (code : String) : Prop where
  stands : Stands code
  holds : e.Holds cx b code

/-- The text of an expression stands on its own and holds what the expression writes. -/
theorem emitExpr_spelled {e : Expr} (h : NamedThroughout e.nodes) (pos : ReadPosition) :
    Emitting.Yields b (e.Spelled cx b) (emitExpr cx pos e) := by
  refine Rendering.Yields.emitting (x := fun b => e.render cx b pos) ?_
  intro reads code reads' hrun
  exact ⟨e.render_stands b h pos reads code reads' hrun, Expr.holds_of_run hrun (.refl code)⟩

/-- The same holds of the text of a value that is converted. -/
theorem emitValue_spelled {e : Expr} (h : NamedThroughout e.nodes) (expected : Option Ty) :
    Emitting.Yields b (e.Spelled cx b) (emitValue cx expected e) := by
  refine Rendering.Yields.emitting (x := fun b => e.renderValue cx b expected) ?_
  intro reads code reads' hrun
  refine ⟨Expr.renderValue_stands h b expected reads code reads' hrun, ?_⟩
  obtain ⟨text, _, htext, hrun⟩ := Rendering.exists_of_run_bind hrun
  cases hrun
  exact Expr.holds_of_run htext ((Within.refl text).coerce _ _ _)

/-- What is borrowed is not cloned. -/
theorem readVar_borrow (cx : FnContext) (b : Bindings) (name : String) (reads : List Read) :
    ∃ reads', (readVar cx b name .borrow).run reads = .ok (Name.value name, reads') := by
  cases hl : b.lookup? name with
  | none => exact ⟨_, readVar_run_of_not_lookup hl reads⟩
  | some id =>
    cases hu : cx.usage.bindings[id]? with
    | some u => exact ⟨_, readVar_run_of_lookup hl hu reads⟩
    | none => exact ⟨_, readVar_run_of_not_counted hl hu reads⟩

/-- A bare name is written like a variable that is borrowed. -/
theorem emitTarget_spelled {e : Expr} (h : NamedThroughout e.nodes) :
    Emitting.Yields b (e.Spelled cx b) (emitTarget cx e) := by
  obtain ⟨span, kind, ty⟩ := e
  cases kind with
  | ident name =>
    have hname := (Expr.isNamed_iff.1 (h _ (.head _))).1 name (.head _)
    refine Emitting.Appends.pure ⟨rfl, rfl, .ofNameText (Name.isNameText_value hname), ?_⟩
    obtain ⟨reads, hrun⟩ := readVar_borrow cx b name []
    refine ⟨.borrow, [], Name.value name, reads, ?_, .refl _⟩
    rw [Expr.render]
    exact hrun
  | _ => exact emitExpr_spelled h .borrow

namespace Emitting.Outlines

variable {out : Traced LineNote Bindings} {next : Bindings → Traced LineNote Bindings}

/-- Where no line is appended, none is outlined. -/
theorem pure {a : α} : Emitting.Outlines cx b (Pure.pure b) (Pure.pure a : Emitting α) :=
  Appends.pure ⟨rfl, .nil⟩

/-- Two emissions in a row are outlined by the notes of both. -/
theorem bind {x : Emitting α} {f : α → Emitting β} (hx : Emitting.Outlines cx b out x)
    (hf : ∀ a, Emitting.Outlines cx out.value (next out.value) (f a)) :
    Emitting.Outlines cx b (out >>= next) (x >>= f) := by
  refine Appends.bind hx ?_
  rintro a lines _ ⟨rfl, hlines⟩ st c st' hrun hb
  obtain ⟨lines', heq, hvalue, hlines'⟩ := hf a st c st' hrun hb
  exact ⟨lines', heq, hvalue, List.rel_append hlines hlines'⟩

/-- A line is outlined by a note that describes it. -/
theorem line {n : LineNote} {text : String} (h : n.Describes cx text) :
    Emitting.Outlines cx b (Traced.tell n >>= fun _ => Pure.pure b) (line text) :=
  Appends.line fun level => ⟨rfl, .cons (h.indent level) .nil⟩

/-- A line comes before the rest. -/
theorem line_bind {n : LineNote} {text : String} {f : Unit → Emitting β} (h : n.Describes cx text)
    (hf : Emitting.Outlines cx b out (f ())) :
    Emitting.Outlines cx b (Traced.tell n >>= fun _ => out) (Emitting.line text >>= f) := by
  refine Appends.bind (line h) ?_
  rintro _ lines _ ⟨rfl, hlines⟩ st c st' hrun hb
  obtain ⟨lines', heq, hvalue, hlines'⟩ := hf st c st' hrun hb
  exact ⟨lines', heq, hvalue, List.rel_append hlines hlines'⟩

/-- What writes no line comes before the rest. -/
theorem yields_bind {x : Emitting α} {f : α → Emitting β} {Q : α → Prop}
    (hx : Emitting.Yields b Q x) (hf : ∀ a, Q a → Emitting.Outlines cx b out (f a)) :
    Emitting.Outlines cx b out (x >>= f) := by
  refine Appends.bind hx ?_
  rintro a _ _ ⟨rfl, rfl, hQ⟩
  exact hf a hQ

/-- The lines inside a block. -/
theorem framed_indented {x : Emitting Unit} (hx : Emitting.Outlines cx b.push out x) :
    Emitting.Outlines cx b (out >>= fun b' => Pure.pure b'.pop) (indented (framed x)) := by
  refine .indented (.framed ?_)
  intro st a st' hrun hb
  obtain ⟨lines, heq, hvalue, hlines⟩ := hx st a st' hrun hb
  refine ⟨lines, heq, congrArg Bindings.pop hvalue, ?_⟩
  rw [Traced.trace_bind, Traced.trace_pure, List.append_nil]
  exact hlines

/-- The line of a variable that is declared with it. -/
theorem declaration {name : String} {text : BindingId → String} {n : LineNote}
    (h : n.Describes cx (text b.next)) :
    Emitting.Outlines cx b (Traced.tell n >>= fun _ => Pure.pure (b.declare name))
      (do
        let id ← declare name
        Emitting.line (text id)) := by
  refine Appends.bind (Q := fun id lines b' => lines = [] ∧ id = b.next ∧ b' = b.declare name)
    (.declare ⟨rfl, rfl, rfl⟩) ?_
  rintro _ _ _ ⟨rfl, rfl, rfl⟩
  exact .line fun level => ⟨rfl, .cons (h.indent level) .nil⟩

end Emitting.Outlines

/-! ## Texts of lines -/

namespace LineNote.Describes

variable {n : LineNote} {text : String}

/-- A line that declares nothing. -/
theorem ofBegins (hbegins : Source.Begins text.toList)
    (hkind : n.role.kind = if Source.isBlock text then .opens else .plain)
    (hshows : ∀ e ∈ n.shown, e.Holds cx n.bindings text) : n.Describes cx text :=
  ⟨hbegins.lineKind_eq.trans hkind.symm, hshows⟩

/-- The line of an expression, a part of which may be text of a statement. -/
theorem ofStands (hstands : Stands text) (hkind : n.role.kind = .plain)
    (hshows : ∀ e ∈ n.shown, e.Holds cx n.bindings text) : n.Describes cx text := by
  refine ofBegins hstands.begins ?_ hshows
  rw [Source.isBlock_of_endsPlain hstands.ends, hkind]
  rfl

end LineNote.Describes

/-- What ends with an opening brace does so with anything in front. -/
theorem Source.isBlock_append (text : String) {suffix : String} (h : Source.isBlock suffix = true) :
    Source.isBlock (text ++ suffix) = true := by
  rw [Source.isBlock, beq_iff_eq] at h ⊢
  rw [String.toList_append, List.getLast?_append, h]
  rfl

/-- The head of a block, with a keyword in front. -/
theorem LineNote.Describes.ofHead (word : String) {lead text : String} {guards : List BindingId}
    {e : Expr} (hmem : word ∈ Name.keywords) (hplain : word ≠ "let" ∧ word ≠ "for")
    (hlead : word.toList ++ [' '] <+: lead.toList) (he : e.Holds cx b text) :
    LineNote.Describes cx ⟨.opens, b, guards, [e]⟩ (lead ++ text ++ " \x7b") := by
  refine ofBegins (Source.begins_of_keyword word hmem hplain ?_) ?_ ?_
  · rw [String.append_assoc, String.toList_append]
    exact hlead.trans (List.prefix_append _ _)
  · rw [Source.isBlock_append _ (by decide)]
    rfl
  · intro e' he'
    rw [List.mem_singleton.1 he']
    exact he.within (((Within.refl text).right _).left _)

/-- What follows the name in the declaration of a variable. -/
theorem startsApart_declaration (ty : Option Ty) {value : String}
    (hvalue : value = "" ∨ ∃ code, value = " = " ++ code) :
    Source.startsApart ((ty.elim "" fun t => ": " ++ t.text .loc) ++ value ++ ";").toList = true := by
  cases ty with
  | some t => simp [Source.startsApart, Source.isNameChar, Source.isWordChar, Source.isWordStart]
  | none =>
    rcases hvalue with rfl | ⟨code, rfl⟩
    · decide
    · simp [Source.startsApart, Source.isNameChar, Source.isWordChar, Source.isWordStart]

/-- The line of a declared variable reads as the declaration of its written name, and it holds what
the value writes. -/
theorem LineNote.Describes.ofLetVar {name value : String} {guards : List BindingId} {shown : List Expr}
    (hname : Name.isIdentifier name = true) (isMut : Bool) (ty : Option Ty)
    (hvalue : value = "" ∨ ∃ code, value = " = " ++ code) (hshows : ∀ e ∈ shown, e.Holds cx b value) :
    LineNote.Describes cx ⟨.letVar name b.next, b, guards, shown⟩
      ("let " ++ mutText isMut ++ Name.value name ++ (ty.elim "" fun t => ": " ++ t.text .loc) ++ value ++
        ";") := by
  constructor
  · have hrest := startsApart_declaration ty hvalue
    have hsplit : ∀ ascription : String, "let " ++ mutText isMut ++ Name.value name ++ ascription ++
        value ++ ";" = "let " ++ mutText isMut ++ Name.value name ++ (ascription ++ value ++ ";") := by
      intro ascription
      simp only [String.append_assoc]
    rw [hsplit]
    exact Source.lineKind_letVar (Name.isNameText_value hname) isMut hrest
  · intro e he
    exact (hshows e he).within (((Within.refl value).right _).left _)

/-- The line of a loop reads as the declaration of its variable, and it holds what the iterable
writes. -/
theorem LineNote.Describes.ofLoop {name text : String} {guards : List BindingId} {e : Expr}
    (hname : Name.isIdentifier name = true) (isMut : Bool) (he : e.Holds cx b text) :
    LineNote.Describes cx ⟨.loop name b.next, b, guards, [e]⟩
      ("for " ++ mutText isMut ++ Name.value name ++ " in " ++ text ++ " \x7b") := by
  constructor
  · have hsplit : "for " ++ mutText isMut ++ Name.value name ++ " in " ++ text ++ " \x7b" =
        "for " ++ mutText isMut ++ Name.value name ++ (" in " ++ text ++ " \x7b") := by
      simp only [String.append_assoc]
    rw [hsplit]
    refine Source.lineKind_loop (Name.isNameText_value hname) isMut ?_
    simp [Source.startsApart, Source.isNameChar, Source.isWordChar, Source.isWordStart]
  · intro e' he'
    rw [List.mem_singleton.1 he']
    exact he.within (((Within.refl text).right _).left _)

/-- The text that is iterated over holds what the text of the iterable does. -/
theorem iterationText_holds {e iterable : Expr} {code : String} (h : e.Holds cx b code) :
    e.Holds cx b (iterationText cx iterable code) := by
  refine h.within ?_
  have hreceiver : Within code (receiverText iterable code) := (Within.refl code).parenthesizeIf _
  unfold iterationText
  dsimp only
  split
  · split
    · exact hreceiver.left _
    · exact hreceiver.left _
  · split
    · exact hreceiver.left _
    · exact hreceiver

/-- The text that is matched holds what the text of the scrutinee does. -/
theorem scrutineeText_holds {e scrutinee : Expr} {code : String} (h : e.Holds cx b code)
    (scrutineeTy : Ty) : e.Holds cx b (scrutineeText scrutineeTy scrutinee code) := by
  refine h.within ?_
  rw [scrutineeText]
  split
  · exact ((Within.refl code).parenthesizeIf _).left _
  · exact .refl code

/-! ## Patterns -/

/-- The text is that of the pattern of a case: a guard if the value is compared, and otherwise text that
begins like an expression. -/
structure IsPattern (cx : FnContext) (b : Bindings) (value : Option Expr) (pattern : String) : Prop where
  compared : value.any Expr.isCompared = true → ∃ code, pattern = "x if x == " ++ code
  plain : value.any Expr.isCompared = false → Source.Begins pattern.toList
  shows : ∀ e ∈ value, e.Holds cx b pattern

/-- The pattern of a number reads as an expression does. -/
theorem numberPattern_stands (scrutineeTy : Ty) (x : Binary64) :
    Stands (numberPattern scrutineeTy x) := by
  rw [numberPattern]
  split
  · exact x.text_stands.append (by decide) (by decide)
  · exact x.text_stands

/-- The pattern of a variant begins as its path does, and the path occurs in it. -/
theorem variantPattern_begins (r : Registry) {enumName variant : String}
    (h : Stands (variantPath enumName variant)) :
    Source.Begins (variantPattern r enumName variant).toList ∧
      Within (variantPath enumName variant) (variantPattern r enumName variant) := by
  unfold variantPattern
  dsimp only
  split
  · exact ⟨(h.append (by decide) (by decide)).begins, (Within.refl _).left _⟩
  · exact ⟨(h.append (by decide) (by decide)).begins, (Within.refl _).left _⟩
  · exact ⟨h.begins, .refl _⟩

/-- The pattern of a value that is not compared. -/
theorem emitPattern_of_not_isCompared (scrutineeTy : Ty) {value : Expr}
    (h : NamedThroughout value.nodes) (hvalue : value.isCompared = false) :
    ∃ pattern, emitPattern cx scrutineeTy value = pure pattern ∧ Source.Begins pattern.toList ∧
      value.Holds cx b pattern := by
  obtain ⟨span, kind, ty⟩ := value
  cases kind with
  | literal value =>
    have hholds : ∀ {pattern}, Within value.render pattern →
        Expr.Holds cx b ⟨span, .literal value, ty⟩ pattern := by
      intro pattern hwithin
      refine ⟨.value, [], value.render, [], ?_, hwithin⟩
      rw [Expr.render]
      rfl
    cases value with
    | number x =>
      refine ⟨_, rfl, (numberPattern_stands scrutineeTy x).begins, hholds ?_⟩
      rw [numberPattern]
      split
      · exact (Within.refl x.text).left _
      · exact .refl x.text
    | text s => exact ⟨_, rfl, (Text.quote_stands s).begins, hholds (.refl _)⟩
    | bool v => exact ⟨_, rfl, (boolText_stands v).begins, hholds (.refl _)⟩
    | null => cases hvalue
  | variant enumName variant data =>
    cases data with
    | some data => cases hvalue
    | none =>
      have htypes := (Expr.isNamed_iff.1 (h _ (.head _))).2
      obtain ⟨hbegins, hwithin⟩ := variantPattern_begins cx.registry
        (variantPath_stands (htypes enumName (.head _)) (htypes variant (.tail _ (.head _))))
      refine ⟨_, rfl, hbegins, .value, [], variantPath enumName variant, [], ?_, hwithin⟩
      rw [Expr.render]
      rfl
  | _ => cases hvalue

/-- What is emitted for the value of a case is a pattern for it. -/
theorem emitCasePattern_isPattern (scrutineeTy : Ty) {value : Option Expr}
    (h : ∀ e ∈ value, NamedThroughout e.nodes) :
    Emitting.Yields b (IsPattern cx b value) (emitCasePattern cx scrutineeTy value) := by
  cases value with
  | none =>
    have hwild : Stands "_" := .ofNameText (.of_isNameText (by decide))
    refine Emitting.Appends.pure ⟨rfl, rfl, ?_, fun _ => hwild.begins, ?_⟩
    · intro hcompared
      cases hcompared
    · intro e he
      cases he
  | some value =>
    rw [emitCasePattern]
    cases hvalue : value.isCompared with
    | true =>
      rw [emitPattern_of_isCompared scrutineeTy hvalue]
      refine (emitExpr_spelled (h value rfl) .borrow).bind ?_
      rintro code _ _ ⟨rfl, rfl, hcode⟩
      refine .pure ⟨rfl, rfl, fun _ => ⟨code, rfl⟩, ?_, ?_⟩
      · intro hplain
        rw [Option.any_some, hvalue] at hplain
        cases hplain
      · rintro _ ⟨⟩
        exact hcode.holds.within ((Within.refl code).right _)
    | false =>
      obtain ⟨pattern, heq, hbegins, hholds⟩ := emitPattern_of_not_isCompared (b := b) scrutineeTy
        (h value rfl) hvalue
      rw [heq]
      refine Emitting.Appends.pure ⟨rfl, rfl, ?_, fun _ => hbegins, ?_⟩
      · intro hcompared
        rw [Option.any_some, hvalue] at hcompared
        cases hcompared
      · rintro _ ⟨⟩
        exact hholds

/-- The line of a pattern. -/
theorem SwitchCase.patternNote_describes {c : SwitchCase} {pattern : String} {guards : List BindingId}
    (h : IsPattern cx b c.value pattern) {arrow : String} (hsettled : Source.settled arrow.toList = true)
    (hblock : Source.isBlock (pattern ++ arrow) = !isEmptyCase c.body) :
    (c.patternNote guards b).Describes cx (pattern ++ arrow) := by
  have hshows : ∀ e ∈ c.value.toList, e.Holds cx b (pattern ++ arrow) := fun e he =>
    (h.shows e (Option.mem_toList.1 he)).within ((Within.refl pattern).left _)
  cases hcompared : c.value.any Expr.isCompared with
  | true =>
    obtain ⟨code, rfl⟩ := h.compared hcompared
    refine ⟨?_, hshows⟩
    have hsplit : "x if x == " ++ code ++ arrow = "x if " ++ ("x == " ++ code ++ arrow) := by
      simp [← String.toList_inj]
    rw [hsplit, Source.lineKind_guard, ← hsplit, hblock, patternNote, hcompared]
    rfl
  | false =>
    refine LineNote.Describes.ofBegins ?_ ?_ hshows
    · rw [String.toList_append]
      exact (h.plain hcompared).append hsettled
    · rw [hblock, patternNote, hcompared]
      cases isEmptyCase c.body <;> rfl

/-! ## Statements -/

/-- The names in all of the lines are identifiers in the emitted source. -/
def NamedLines (notes : List LineNote) : Prop :=
  ∀ n ∈ notes, n.IsNamed

namespace NamedLines

variable {n : LineNote} {out : Traced LineNote Bindings} {next : Bindings → Traced LineNote Bindings}

/-- The names of the first line are identifiers. -/
theorem head (h : NamedLines (Traced.tell n >>= fun _ => out).trace) : n.IsNamed :=
  h n (.head _)

/-- The names of the lines behind the first one are identifiers. -/
theorem tail (h : NamedLines (Traced.tell n >>= fun _ => out).trace) : NamedLines out.trace :=
  fun m hm => h m (.tail _ hm)

/-- The names of the first lines are identifiers. -/
theorem left (h : NamedLines (out >>= next).trace) : NamedLines out.trace :=
  (List.forall_mem_append.1 h).1

/-- The names of the last lines are identifiers. -/
theorem right (h : NamedLines (out >>= next).trace) : NamedLines (next out.value).trace :=
  (List.forall_mem_append.1 h).2

end NamedLines

/-- A line without expressions. -/
theorem LineNote.Describes.ofFixed {role : LineRole} {text : String} (h : lineKind text = role.kind)
    (b : Bindings) (guards : List BindingId) : LineNote.Describes cx ⟨role, b, guards, []⟩ text :=
  ⟨h, fun _ he => absurd he List.not_mem_nil⟩

/-- A closing brace ends a block. -/
theorem LineNote.Describes.ofCloses (b : Bindings) (guards : List BindingId) :
    LineNote.Describes cx ⟨.closes, b, guards, []⟩ "\x7d" :=
  .ofFixed (by decide +kernel) b guards

/-- A returned expression. -/
theorem LineNote.Describes.ofRet {code : String} {e : Expr} (he : e.Spelled cx b code)
    (guards : List BindingId) :
    LineNote.Describes cx ⟨.plain, b, guards, [e]⟩ ("return " ++ code ++ ";") := by
  refine ofStands ⟨?_, Source.endsPlain_append (by decide) _⟩ rfl ?_
  · refine Source.begins_of_keyword "return" (by decide) (by decide) ?_
    rw [String.append_assoc, String.toList_append]
    exact List.prefix_append _ _
  · intro e' he'
    rw [List.mem_singleton.1 he']
    exact he.holds.within (((Within.refl code).right _).left _)

/-- The condition of an alternative. -/
theorem LineNote.Describes.ofReopens {text : String} {e : Expr} (he : e.Holds cx b text)
    (guards : List BindingId) :
    LineNote.Describes cx ⟨.reopens, b, guards, [e]⟩ ("\x7d else if " ++ text ++ " \x7b") := by
  constructor
  · have hsplit : "\x7d else if " ++ text ++ " \x7b" = "\x7d" ++ (" else if " ++ text ++ " \x7b") := by
      simp [← String.toList_inj]
    rw [hsplit]
    refine Source.lineKind_reopens ?_
    rw [← hsplit]
    exact Source.isBlock_append _ (by decide)
  · intro e' he'
    rw [List.mem_singleton.1 he']
    exact he.within (((Within.refl text).right _).left _)

/-- The lines of a loop. The variable of the loop has a frame of its own. -/
theorem Emitting.Outlines.loop {name : String} {text : BindingId → String} {x : Emitting Unit}
    {n : LineNote} {out : Traced LineNote Bindings} {guards : List BindingId}
    (hline : n.Describes cx (text b.next)) (hx : Emitting.Outlines cx (b.push.declare name) out x) :
    Emitting.Outlines cx b
      (do
        Traced.tell n
        let b' ← out
        Traced.tell ⟨.closes, b'.pop, guards, []⟩
        return b'.pop)
      (do
        framed do
          let id ← Emitting.declare name
          Emitting.line (text id)
          x
        Emitting.line "\x7d") := by
  have hframed : Emitting.Outlines cx b (Traced.tell n >>= fun _ => out >>= fun b' => Pure.pure b'.pop)
      (framed do
        let id ← Emitting.declare name
        Emitting.line (text id)
        x) := by
    refine Emitting.Appends.framed (Emitting.Appends.bind (Q := fun id lines b' =>
      lines = [] ∧ id = b.next ∧ b' = b.push.declare name) (.declare ⟨rfl, rfl, rfl⟩) ?_)
    rintro _ _ _ ⟨rfl, rfl, rfl⟩
    intro st a st' hrun hb
    obtain ⟨lines, heq, hvalue, hlines⟩ := Emitting.Outlines.line_bind hline hx st a st' hrun hb
    refine ⟨lines, heq, congrArg Bindings.pop hvalue, ?_⟩
    simpa using hlines
  have hlines : Emitting.Outlines cx b (_ >>= fun b' => do
        Traced.tell ⟨.closes, b', guards, []⟩
        return b') (_ >>= fun _ => Emitting.line "\x7d") :=
    hframed.bind fun _ => Emitting.Outlines.line (.ofCloses _ guards)
  simpa only [Traced.bind_assoc, Traced.pure_bind] using hlines

/-- The lines of arms that match their outlines, the default ones last. -/
theorem outlines_arms {outlines : Traced (Bool × List LineNote) Bindings} {arms : List Arm}
    (h : ArmsMatch (LineNote.Describes cx) outlines.trace arms) (guards : List BindingId) :
    Emitting.Outlines cx outlines.value (orderArms guards outlines)
      (do
        append ((arms.filter (!·.isDefault)).flatMap (·.lines))
        append ((arms.filter (·.isDefault)).flatMap (·.lines))
        if arms.any (·.isDefault) then pure () else line "_ => \x7b\x7d") := by
  have hlast : Emitting.Outlines cx outlines.value
      ⟨outlines.value, if outlines.trace.any (·.1) then [] else [⟨.plain, outlines.value, guards, []⟩]⟩
      (if outlines.trace.any (·.1) then pure () else line "_ => \x7b\x7d") := by
    split
    · exact .pure
    · exact .line (.ofFixed (by decide +kernel) _ guards)
  refine Emitting.Appends.bind (Q := fun _ lines b' => b' = outlines.value ∧
    List.Forall₂ (LineNote.Describes cx) ((outlines.trace.filter (!·.1)).flatMap (·.2)) lines)
    (.append ⟨rfl, h.lines (!·)⟩) ?_
  rintro _ cases _ ⟨rfl, hcases⟩
  refine Emitting.Appends.bind (Q := fun _ lines b' => b' = outlines.value ∧
    List.Forall₂ (LineNote.Describes cx) ((outlines.trace.filter (·.1)).flatMap (·.2)) lines)
    (.append ⟨rfl, h.lines (·)⟩) ?_
  rintro _ defaults _ ⟨rfl, hdefaults⟩
  rw [h.any_isDefault]
  intro st a st' hrun hb
  obtain ⟨lines, heq, hvalue, hlines⟩ := hlast st a st' hrun hb
  exact ⟨lines, heq, hvalue, List.rel_append hcases (List.rel_append hdefaults hlines)⟩

/-- The arm of a case. -/
theorem outlines_arm {c : SwitchCase} {pattern : String} (h : IsPattern cx b c.value pattern)
    {inner : Traced LineNote Bindings} (hempty : isEmptyCase c.body = true → inner.value.pop = b)
    (hbody : Emitting.Outlines cx b.push inner (Stmt.emitCaseBody cx c.body)) (guards : List BindingId) :
    Emitting.Outlines cx b ⟨inner.value.pop, c.armNotes guards b inner⟩
      (if isEmptyCase c.body then line (pattern ++ " => \x7b\x7d")
        else do
          line (pattern ++ " => \x7b")
          indented (framed (Stmt.emitCaseBody cx c.body))
          line "\x7d") := by
  rw [SwitchCase.armNotes]
  split
  · next hbody =>
    rw [hempty hbody]
    refine .line (SwitchCase.patternNote_describes h (by decide) ?_)
    rw [hbody, Source.isBlock_of_endsPlain (Source.endsPlain_append (by decide) _)]
    rfl
  · next hfull =>
    have hblock : Source.isBlock (pattern ++ " => \x7b") = !isEmptyCase c.body := by
      rw [Source.isBlock_append _ (by decide), Bool.eq_false_iff.2 hfull]
      rfl
    have hnotes : (⟨inner.value.pop, c.patternNote (c.guardsOver guards b) b ::
        (inner.trace ++ [⟨.closes, inner.value.pop, guards, []⟩])⟩ : Traced LineNote Bindings) = do
          Traced.tell (c.patternNote (c.guardsOver guards b) b)
          let b ← inner >>= fun b' => pure b'.pop
          Traced.tell ⟨.closes, b, guards, []⟩
          return b :=
      congrArg (Traced.mk _) (by simp [Traced.tell])
    rw [hnotes]
    exact .line_bind (SwitchCase.patternNote_describes h (by decide) hblock)
      (.bind (.framed_indented hbody) fun _ => .line (.ofCloses _ guards))

/-- A record writes no line. -/
theorem appends_noteFallthrough (pattern : String) :
    Emitting.Appends b (fun _ lines b' => lines = [] ∧ b' = b) (noteFallthrough pattern) := by
  rintro st a st' ⟨⟩ rfl
  exact ⟨[], (List.append_nil _).symm, rfl, rfl⟩

/-- The lines of the body of a case are among those of its arm. -/
theorem NamedLines.of_armNotes {c : SwitchCase} {guards inside : List BindingId}
    (h : NamedLines (c.armNotes guards b (Stmt.caseOutline inside b.push c.body))) :
    NamedLines (Stmt.caseOutline inside b.push c.body).trace := by
  intro n hn
  cases hempty : isEmptyCase c.body with
  | true =>
    rw [Stmt.caseOutline_of_isEmptyCase hempty] at hn
    cases hn
  | false =>
    refine h n (.tail _ ?_)
    rw [hempty]
    exact List.mem_append_left _ hn

/-- The arm of a case comes before the others. -/
theorem appends_arm {c : SwitchCase} {pattern : String} (h : IsPattern cx b c.value pattern)
    {inner : Traced LineNote Bindings} (guards : List BindingId)
    (hempty : isEmptyCase c.body = true → inner.value.pop = b)
    (hbody : Emitting.Outlines cx b.push inner (Stmt.emitCaseBody cx c.body))
    {outlines : Traced (Bool × List LineNote) Bindings} {rest : Emitting (List Arm)}
    (hrest : Emitting.Appends inner.value.pop (fun arms lines b' => lines = [] ∧ b' = outlines.value ∧
      ArmsMatch (LineNote.Describes cx) outlines.trace arms) rest) :
    Emitting.Appends b
      (fun arms lines b' => lines = [] ∧ b' = outlines.value ∧ ArmsMatch (LineNote.Describes cx)
        ((c.value.isNone, c.armNotes guards b inner) :: outlines.trace) arms)
      (do
        let lines ← captured do
          if isEmptyCase c.body then line (pattern ++ " => \x7b\x7d")
          else do
            line (pattern ++ " => \x7b")
            indented (framed (Stmt.emitCaseBody cx c.body))
            line "\x7d"
        let arms ← rest
        return ⟨c.value.isNone, lines⟩ :: arms) := by
  refine Emitting.Appends.bind (Q := fun arm lines b' => lines = [] ∧ b' = inner.value.pop ∧
    List.Forall₂ (LineNote.Describes cx) (c.armNotes guards b inner) arm) (.captured ?_) ?_
  · intro st a st' hrun hb
    obtain ⟨lines, heq, hvalue, hlines⟩ := outlines_arm h hempty hbody guards st a st' hrun hb
    exact ⟨lines, heq, rfl, hvalue, hlines⟩
  · rintro arm _ _ ⟨rfl, rfl, harm⟩
    refine hrest.bind ?_
    rintro arms _ _ ⟨rfl, rfl, harms⟩
    exact .pure ⟨rfl, rfl, .cons ⟨rfl, harm⟩ harms⟩

mutual

/-- A statement is emitted as outlined. -/
theorem Stmt.emit_outlines (guards : List BindingId) :
    (s : Stmt) → (b : Bindings) → NamedLines (s.outline guards b).trace →
      Emitting.Outlines cx b (s.outline guards b) (s.emit cx)
  | .letVar _ name ty mutable none, b, h => by
    rw [Stmt.outline] at h ⊢
    rw [Stmt.emit]
    simp only [pure_bind]
    have hname : Name.isIdentifier name = true := h.head.declared (name, b.next) rfl
    refine .declaration ?_
    exact .ofLetVar hname _ ty (.inl rfl) fun _ he => absurd he List.not_mem_nil
  | .letVar _ name ty mutable (some init), b, h => by
    rw [Stmt.outline] at h ⊢
    rw [Stmt.emit]
    simp only [pure_bind]
    have hname : Name.isIdentifier name = true := h.head.declared (name, b.next) rfl
    refine .yields_bind (emitValue_spelled (h.head.shown init (.head _)) ty) fun code hcode => ?_
    refine .declaration ?_
    refine .ofLetVar hname _ ty (.inr ⟨code, rfl⟩) ?_
    intro e he
    rw [List.mem_singleton.1 he]
    exact hcode.holds.within ((Within.refl code).right _)
  | .assign _ target value, b, h => by
    rw [Stmt.outline] at h ⊢
    rw [Stmt.emit]
    have htarget := h.head.shown target (.head _)
    have hvalue := h.head.shown value (.tail _ (.head _))
    refine .yields_bind (emitTarget_spelled htarget) fun place hplace =>
      .yields_bind (emitValue_spelled hvalue target.ty) fun code hcode => .line ?_
    refine .ofStands
      (bracketed_stands hplace.stands.begins (by decide) (by decide) (by decide) code) rfl ?_
    intro e he
    rcases List.mem_pair.1 he with rfl | rfl
    · exact hplace.holds.within ((((Within.refl place).left _).left _).left _)
    · exact hcode.holds.within (((Within.refl code).right _).left _)
  | .ret _ none, b, _ => by
    rw [Stmt.outline, Stmt.emit]
    exact .line (.ofFixed (by decide +kernel) b guards)
  | .ret _ (some value), b, h => by
    rw [Stmt.outline] at h ⊢
    rw [Stmt.emit]
    exact .yields_bind (emitValue_spelled (h.head.shown value (.head _)) (some cx.ret))
      fun code hcode => .line (.ofRet hcode guards)
  | .ifElse _ cond thenBlock elseBlock, b, h => by
    rw [Stmt.outline] at h ⊢
    rw [Stmt.emit]
    refine .yields_bind (emitExpr_spelled (h.head.shown cond (.head _)) .borrow) fun code hcode => ?_
    refine .line_bind (.ofHead "if" (by decide) (by decide) (by decide) hcode.holds) ?_
    refine .bind (thenBlock.emit_outlines guards b h.tail.left) fun _ => ?_
    exact .bind (Block.emitElse_outlines guards elseBlock _ h.tail.right.left) fun _ =>
      .line (.ofCloses _ _)
  | .whileLoop _ cond body, b, h => by
    rw [Stmt.outline] at h ⊢
    rw [Stmt.emit]
    refine .yields_bind (emitExpr_spelled (h.head.shown cond (.head _)) .borrow) fun code hcode => ?_
    refine .line_bind (.ofHead "while" (by decide) (by decide) (by decide) hcode.holds) ?_
    exact .bind (body.emit_outlines guards b h.tail.left) fun _ =>
      .line (.ofCloses _ _)
  | .forEach _ var iterable body, b, h => by
    rw [Stmt.outline] at h ⊢
    rw [Stmt.emit]
    have hname : Name.isIdentifier var = true := h.head.declared (var, b.next) rfl
    refine .yields_bind (emitExpr_spelled (h.head.shown iterable (.head _)) .borrow)
      fun code hcode => ?_
    refine .loop ?_ (body.emit_outlines guards _ h.tail.left)
    exact .ofLoop hname _ (iterationText_holds hcode.holds)
  | .switch _ scrutinee cases, b, h => by
    rw [Stmt.outline] at h ⊢
    rw [Stmt.emit]
    refine .yields_bind (emitExpr_spelled (h.head.shown scrutinee (.head _)) .borrow) fun code hcode => ?_
    refine .line_bind (.ofHead "match" (by decide) (by decide) (by decide)
      (scrutineeText_holds hcode.holds _)) ?_
    have harms := SwitchCase.emitArms_outlines guards
      (cx.registry.normalize scrutinee.tyOrVoid).stripRefs cases b
      fun arm harm n hn => h.tail.left n (mem_orderArms harm hn)
    refine .bind (.indented (harms.bind ?_)) fun _ => .line (.ofCloses _ _)
    rintro arms _ _ ⟨rfl, rfl, hmatch⟩
    exact outlines_arms hmatch guards
  | .breakLoop _, b, _ => by
    rw [Stmt.outline, Stmt.emit]
    exact .line (.ofFixed (by decide +kernel) b guards)
  | .continueLoop _, b, _ => by
    rw [Stmt.outline, Stmt.emit]
    exact .line (.ofFixed (by decide +kernel) b guards)
  | .expr e, b, h => by
    rw [Stmt.outline] at h ⊢
    rw [Stmt.emit]
    refine .yields_bind (emitExpr_spelled (h.head.shown e (.head _)) .value) fun code hcode => .line ?_
    refine .ofStands (hcode.stands.append (by decide) (by decide)) rfl ?_
    intro e' he'
    rw [List.mem_singleton.1 he']
    exact hcode.holds.within ((Within.refl code).left _)
  | .block body, b, h => by
    rw [Stmt.outline] at h ⊢
    rw [Stmt.emit]
    refine .line_bind (.ofFixed (by decide +kernel) b guards) ?_
    exact .bind (body.emit_outlines guards b h.tail.left) fun _ =>
      .line (.ofCloses _ _)

/-- Statements in a row are outlined one after the other. -/
theorem Stmt.emitList_outlines (guards : List BindingId) :
    (ss : List Stmt) → (b : Bindings) → NamedLines (Stmt.outlineList guards b ss).trace →
      Emitting.Outlines cx b (Stmt.outlineList guards b ss) (Stmt.emitList cx ss)
  | [], b, _ => by
    rw [Stmt.outlineList, Stmt.emitList]
    exact .pure
  | s :: ss, b, h => by
    rw [Stmt.outlineList] at h ⊢
    rw [Stmt.emitList]
    exact .bind (s.emit_outlines guards b h.left) fun _ => Stmt.emitList_outlines guards ss _ h.right

/-- A block is outlined by its statements, in a frame of their own. -/
theorem Block.emit_outlines (guards : List BindingId) :
    (body : Block) → (b : Bindings) → NamedLines (body.outline guards b).trace →
      Emitting.Outlines cx b (body.outline guards b) (body.emit cx)
  | ⟨_, stmts⟩, b, h => by
    rw [Block.outline] at h ⊢
    rw [Block.emit]
    exact .framed_indented (Stmt.emitList_outlines guards stmts b.push h.left)

/-- The alternative of a conditional is outlined with the lines that open it. -/
theorem Block.emitElse_outlines (guards : List BindingId) :
    (body : Option Block) → (b : Bindings) → NamedLines (Block.outlineElse guards b body).trace →
      Emitting.Outlines cx b (Block.outlineElse guards b body) (Block.emitElse cx body)
  | none, b, _ => by
    rw [Block.outlineElse, Block.emitElse]
    exact .pure
  | some ⟨span, [s]⟩, b, h => by
    cases s with
    | ifElse _ cond thenBlock elseBlock =>
      rw [Block.outlineElse] at h ⊢
      rw [Block.emitElse]
      refine .yields_bind (emitExpr_spelled (h.head.shown cond (.head _)) .borrow) fun code hcode => ?_
      refine .line_bind (.ofReopens hcode.holds guards) ?_
      exact .bind (thenBlock.emit_outlines guards b h.tail.left) fun _ =>
        Block.emitElse_outlines guards elseBlock _ h.tail.right
    | _ =>
      refine .line_bind (.ofFixed (by decide +kernel) b guards) ?_
      exact .framed_indented (Stmt.emitList_outlines guards _ b.push h.tail.left)
  | some ⟨_, []⟩, b, h => by
    refine .line_bind (.ofFixed (by decide +kernel) b guards) ?_
    exact .framed_indented (Stmt.emitList_outlines guards [] b.push h.tail.left)
  | some ⟨span, s :: s' :: ss⟩, b, h => by
    rw [Block.outlineElse] at h ⊢
    · rw [Block.emitElse]
      · refine .line_bind (.ofFixed (by decide +kernel) b guards) ?_
        exact .framed_indented (Stmt.emitList_outlines guards (s :: s' :: ss) b.push h.tail.left)
      · nofun
    · nofun
    · nofun

/-- Each arm of a switch is outlined on its own; none of their lines is appended yet. -/
theorem SwitchCase.emitArms_outlines (guards : List BindingId) (scrutineeTy : Ty) :
    (cases : List SwitchCase) → (b : Bindings) →
      (∀ arm ∈ (SwitchCase.outlines guards b cases).trace, NamedLines arm.2) →
      Emitting.Appends b
        (fun arms lines b' => lines = [] ∧ b' = (SwitchCase.outlines guards b cases).value ∧
          ArmsMatch (LineNote.Describes cx) (SwitchCase.outlines guards b cases).trace arms)
        (SwitchCase.emitArms cx scrutineeTy cases)
  | [], b, _ => by
    rw [SwitchCase.outlines, SwitchCase.emitArms]
    exact .pure ⟨rfl, rfl, .nil⟩
  | ⟨span, value, body, fallthrough⟩ :: cases, b, h => by
    rw [SwitchCase.outlines] at h ⊢
    rw [SwitchCase.emitArms]
    have hfirst := h _ (.head _)
    have hvalue : ∀ e ∈ value, NamedThroughout e.nodes := fun e he =>
      (hfirst _ (.head _)).shown e (Option.mem_toList.2 he)
    refine (emitCasePattern_isPattern scrutineeTy hvalue).bind ?_
    rintro pattern _ b ⟨rfl, rfl, hpattern⟩
    have harms := appends_arm (c := ⟨span, value, body, fallthrough⟩) hpattern guards
      (fun hempty => by rw [Stmt.caseOutline_of_isEmptyCase hempty]; rfl)
      (Stmt.emitCaseBody_outlines _ body _ (NamedLines.of_armNotes hfirst))
      (SwitchCase.emitArms_outlines guards scrutineeTy cases _ fun arm harm => h arm (.tail _ harm))
    dsimp only
    by_cases hfalls : (!(⟨span, value, body, fallthrough⟩ : SwitchCase).endsWithJump) = true
    · rw [if_pos hfalls]
      refine Emitting.Appends.bind (Q := fun _ lines b' => lines = [] ∧ b' = b)
        (appends_noteFallthrough pattern) ?_
      rintro _ _ _ ⟨rfl, rfl⟩
      exact harms
    · rw [if_neg hfalls]
      exact harms

/-- The body of a case is outlined without the `break` that ends it. -/
theorem Stmt.emitCaseBody_outlines (guards : List BindingId) :
    (ss : List Stmt) → (b : Bindings) → NamedLines (Stmt.caseOutline guards b ss).trace →
      Emitting.Outlines cx b (Stmt.caseOutline guards b ss) (Stmt.emitCaseBody cx ss)
  | [], b, _ => by
    rw [Stmt.caseOutline, Stmt.emitCaseBody]
    exact .pure
  | [s], b, h => by
    cases s with
    | breakLoop span => exact .pure
    | _ => exact .bind (Stmt.emit_outlines guards _ b h.left) fun _ => .pure
  | s :: s' :: ss, b, h => by
    rw [Stmt.caseOutline] at h ⊢
    · rw [Stmt.emitCaseBody]
      · exact .bind (s.emit_outlines guards b h.left) fun _ =>
          Stmt.emitCaseBody_outlines guards (s' :: ss) _ h.right
      · nofun
    · nofun
    · nofun

end

/-- The last statement of a function with a result has the same outline, written bare or not. -/
theorem Stmt.emitTail_outlines {guards : List BindingId} {s : Stmt}
    (h : NamedLines (s.outline guards b).trace) :
    Emitting.Outlines cx b (s.outline guards b) (s.emitTail cx) := by
  have hbare : ∀ {e : Expr}, NamedThroughout e.nodes →
      Emitting.Outlines cx b (do Traced.tell ⟨.plain, b, guards, [e]⟩; return b)
        (do line (← emitValue cx (some cx.ret) e)) := by
    intro e he
    refine .yields_bind (emitValue_spelled he (some cx.ret)) fun code hcode => .line ?_
    refine .ofStands hcode.stands rfl fun e' he' => ?_
    rw [List.mem_singleton.1 he']
    exact hcode.holds
  unfold Stmt.emitTail
  split
  · next value =>
    rw [Stmt.outline] at h ⊢
    exact hbare (h.head.shown value (.head _))
  · next e =>
    refine .yields_bind (Q := fun _ => True) (.bindings ⟨rfl, rfl, trivial⟩) fun _ _ => ?_
    split
    · exact Stmt.emit_outlines guards _ b h
    · rw [Stmt.outline] at h ⊢
      exact hbare (h.head.shown e (.head _))
  · exact Stmt.emit_outlines guards _ b h

/-- The body of a function is outlined by its statements, whether or not the last one is written as an
expression. -/
theorem Stmt.emitBody_outlines {guards : List BindingId} {ss : List Stmt}
    (h : NamedLines (Stmt.outlineList guards b ss).trace) :
    Emitting.Outlines cx b (Stmt.outlineList guards b ss) (Stmt.emitBody cx ss) := by
  induction ss generalizing b with
  | nil =>
    rw [Stmt.outlineList, Stmt.emitBody]
    exact .pure
  | cons s ss ih =>
    rw [Stmt.outlineList] at h ⊢
    cases ss with
    | nil =>
      rw [Stmt.emitBody]
      have hlast : (do Stmt.outlineList guards (← s.outline guards b) []) = s.outline guards b :=
        congrArg (Traced.mk _) (List.append_nil _)
      rw [hlast] at h ⊢
      split
      · exact s.emit_outlines guards b h
      · exact Stmt.emitTail_outlines h
    | cons s' ss =>
      rw [Stmt.emitBody]
      · exact .bind (s.emit_outlines guards b h.left) fun _ => ih h.right
      · exact List.cons_ne_nil _ _

end

end Oxidize
