import Oxidize.Proofs.Emit.Follow
import Oxidize.Proofs.Emit.Parts

/-!
# Names that emission binds

Two kinds of emitted text bind names of their own: the closures in the templates of builtins, and the
guard of a case that is compared with a value. A variable that is written like such a name inside its
scope is captured. Of all slots of all templates only one is inside a closure: that for what a sequence
is searched for, where `e` is bound. So `FnContext.captures_iff` says which variables are captured in the
arguments of builtins and in the values that guards compare with, and `Program.capturesOwn_compile` is a
program with two of them.

A guard binds its name also over the body of its arm. That body is not looked at here but among the lines
of the whole function, whose scopes have the names of guards (`Source.lineScopes`).
-/

namespace Oxidize

open Template

/-- The text of the expression stands in `whole`, and a variable that it writes there is written as
one of the names. -/
def Expr.CapturedIn (cx : FnContext) (b : Bindings) (e : Expr) (whole : String)
    (names : List String) : Prop :=
  e.Holds cx b whole ∧
    ∃ name, e.Writes cx b name ∧ Name.value name ∈ names ∧ Within (Name.value name) whole

/-- Some variable of the expression is written as the given name. -/
def Expr.WritesAs (cx : FnContext) (b : Bindings) (e : Expr) (written : String) : Prop :=
  ∃ name, e.Writes cx b name ∧ Name.value name = written

variable {cx : FnContext} {b : Bindings}

/-- A text that holds the expression captures exactly the names that its variables are written as. -/
theorem Expr.Holds.capturedIn_iff {e : Expr} {whole : String} (h : e.Holds cx b whole)
    (names : List String) :
    e.CapturedIn cx b whole names ↔ ∃ written ∈ names, e.WritesAs cx b written := by
  constructor
  · rintro ⟨-, name, hwrites, hmem, -⟩
    exact ⟨_, hmem, name, hwrites, rfl⟩
  · rintro ⟨_, hmem, name, hwrites, rfl⟩
    obtain ⟨pos, before, code, read, hrun, hwithin⟩ := id h
    exact ⟨h, name, hwrites, hmem, (hwrites.within hrun).trans hwithin⟩

/-- The names bound at a slot matter only where a sequence is searched. -/
theorem Template.Slot.exists_bound_iff {table : Table} {rule : Rule} (hrule : rule ∈ table.rules)
    {s : Slot} (hs : s ∈ slots (pieces rule.template)) (P : String → Prop) :
    (∃ name ∈ s.bound, P name) ↔ s.IsSearch table rule ∧ P "e" := by
  rw [(table.regular rule hrule).bound s hs]
  split <;> simp_all

/-! ## Guards -/

/-- Whether the value of a case is compared in a guard: no number, text or truth value and no variant
without data. -/
def Expr.isCompared (value : Expr) : Bool :=
  match value.kind with
  | .literal (.number _) | .literal (.text _) | .literal (.bool _) | .variant _ _ none => false
  | _ => true

/-- The name that a pattern with a guard binds, which is its first word. -/
def patternName (pattern : String) : String :=
  String.ofList (pattern.toList.takeWhile (· != ' '))

/-- Emitting an expression renders it at the bindings and after the reads so far. -/
theorem emitExpr_run {e : Expr} {pos : ReadPosition} {st st' : Emission} {code : String}
    (h : emitExpr cx pos e st = .ok code st') :
    (e.render cx st.bindings pos).run st.reads = .ok (code, st'.reads) := by
  change Emitting.rendering (e.render cx st.bindings pos) st = .ok code st' at h
  unfold Emitting.rendering at h
  split at h
  · next hrun =>
    cases h
    exact hrun
  · cases h

/-- What is compared is written behind the name that the guard binds. -/
theorem emitPattern_of_isCompared (scrutineeTy : Ty) {value : Expr} (hvalue : value.isCompared = true) :
    emitPattern cx scrutineeTy value = do
      let code ← emitExpr cx .borrow value
      return "x if x == " ++ code := by
  unfold Expr.isCompared at hvalue
  unfold emitPattern
  split
  iterate 4
    next hkind =>
      rw [hkind] at hvalue
      cases hvalue
  rfl

/-- A guard is the text of the value behind a comparison with the name it binds. -/
theorem emitPattern_isCompared {scrutineeTy : Ty} {value : Expr} (hvalue : value.isCompared = true)
    {st st' : Emission} {pattern : String}
    (h : emitPattern cx scrutineeTy value st = .ok pattern st') :
    ∃ code, pattern = "x if x == " ++ code ∧ value.Holds cx st.bindings code := by
  rw [emitPattern_of_isCompared scrutineeTy hvalue] at h
  obtain ⟨code, st₁, hcode, h⟩ := Emitting.exists_of_run_bind h
  cases h
  exact ⟨code, rfl, Expr.holds_of_run (emitExpr_run hcode) (.refl code)⟩

/-! ## Captured variables -/

/-- **Which variables of an argument or of a compared value are captured.** What a builtin shows of an
argument holds the text of the argument. There a variable is captured exactly if a sequence is searched
and the variable is written `e`. Nothing is bound where a template shows anything else. In the value that
a guard compares with, a variable is captured exactly if it is written `x`; this says nothing of the body
of the arm, over which the guard binds its name too. -/
theorem FnContext.captures_iff (cx : FnContext) :
    (∀ (b : Bindings) (e : Expr) (d : Dispatch) (args : List Expr) (pos : ReadPosition)
        (reads after : List Read) (text : String), e.builtinCall? cx b = some (d, args) →
      (e.render cx b pos).run reads = .ok (text, after) →
      ∃ texts, text = d.rule.render texts ∧ ∀ s ∈ slots (pieces d.rule.template),
        (shown? s.key = none → s.bound = []) ∧
        ∀ (shown : Shown) (i : Nat) (arg : Expr), shown? s.key = some shown →
          shown.shows i = true → args[i]? = some arg →
          text.toList = textOf (placeholder? texts) s.before ++ (shown.text texts).toList ++
            textOf (placeholder? texts) s.after ∧
          (arg.CapturedIn cx b (shown.text texts) s.bound ↔
            s.IsSearch d.table d.rule ∧ arg.WritesAs cx b "e")) ∧
    ∀ (scrutineeTy : Ty) (value : Expr) (st st' : Emission) (pattern : String),
      value.isCompared = true →
      emitPattern cx scrutineeTy value st = .ok pattern st' →
      ∃ code, pattern = "x if x == " ++ code ∧
        (value.CapturedIn cx st.bindings code [patternName pattern] ↔
          value.WritesAs cx st.bindings "x") := by
  constructor
  · intro b e d args pos reads after text hcall hrun
    obtain ⟨hrule, texts, rfl, -, hargs⟩ := Expr.render_builtinCall hcall hrun
    refine ⟨texts, rfl, fun s hs => ⟨fun hnone => ?_, fun shown i arg hshown hshows harg => ⟨?_, ?_⟩⟩⟩
    · rw [(d.table.regular d.rule hrule).bound s hs, if_neg]
      rintro ⟨-, -, hkey⟩
      rw [hkey] at hnone
      cases hnone
    · rw [← groupText_of_shown? hshown]
      exact s.expand_eq hs texts
    · obtain ⟨pos, before, code, read, param, hcode, htexts, -⟩ := hargs harg
      have hholds : arg.Holds cx b (shown.text texts) := Expr.holds_of_run hcode
        (((Within.refl code).coerce _ _ _).trans (shown.within_text hshows htexts))
      rw [hholds.capturedIn_iff]
      exact s.exists_bound_iff hrule hs _
  · intro scrutineeTy value st st' pattern hvalue h
    obtain ⟨code, rfl, hholds⟩ := emitPattern_isCompared hvalue h
    refine ⟨code, rfl, ?_⟩
    rw [hholds.capturedIn_iff]
    have hname : patternName ("x if x == " ++ code) = "x" := by
      simp [patternName]
    rw [hname]
    simp

/-- In the example both variables are captured by the text around them. -/
theorem FnContext.capturesOwn_captures :
    let cx : FnContext := ⟨.empty, .empty, ⟨[], [], []⟩, .void⟩
    let b := ((Bindings.empty.declare "xs").declare "e").declare "x"
    let e := Expr.ofKind (.ident "e")
    let x := Expr.ofKind (.ident "x")
    let call := Expr.ofKind (.methodCall (.ofKind (.ident "xs")) "indexOf" none [e] (some (.seq .f64)))
    (∃ d texts, ∃ s ∈ slots (pieces d.rule.template), call.builtinCall? cx b = some (d, [e]) ∧
      d.rule.render texts = "xs.iter().position(|e| *e == e).map(|i| i as f64).unwrap_or(-1.0)" ∧
      e.CapturedIn cx b ((Shown.arg 0).text texts) s.bound) ∧
    ∃ code, "x if x == x" = "x if x == " ++ code ∧
      x.CapturedIn cx b code [patternName "x if x == x"] := by
  intro cx b e x call
  obtain ⟨hbuiltin, hguard⟩ := FnContext.captures_iff cx
  constructor
  · obtain ⟨d, hcall, htable, hname, htemplate⟩ : ∃ d, call.builtinCall? cx b = some (d, [e]) ∧
        d.table = .sequence ∧ d.rule.name = "indexOf" ∧ d.rule.template =
          "{recv}.iter().position(|e| *e == {0}).map(|i| i as f64).unwrap_or(-1.0)" :=
      ⟨_, rfl, rfl, rfl, rfl⟩
    have hrun : ((call.render cx b .value).run []).toOption =
        some ("xs.iter().position(|e| *e == e).map(|i| i as f64).unwrap_or(-1.0)", []) := by
      decide +kernel
    cases hok : (call.render cx b .value).run [] with
    | error _ =>
      rw [hok] at hrun
      cases hrun
    | ok result =>
      rw [hok] at hrun
      obtain rfl := Option.some.inj hrun
      obtain ⟨texts, htext, h⟩ := hbuiltin b call d [e] .value [] _ _ hcall hok
      obtain ⟨s, hs, hkey⟩ : ∃ s ∈ slots (pieces d.rule.template), s.key = "0" := by
        rw [htemplate]
        decide +kernel
      have hshown : shown? s.key = some (.arg 0) := by
        rw [hkey]
        decide +kernel
      refine ⟨d, texts, s, hs, hcall, htext.symm, ?_⟩
      exact (((h s hs).2 (.arg 0) 0 e hshown rfl rfl).2).2
        ⟨⟨htable, hname, hkey⟩, "e", .ident (by decide), by decide +kernel⟩
  · have hpattern : (EStateM.Result.casesOn (motive := fun _ => Option String)
        (emitPattern cx .f64 x ⟨b, [], 0, [], 0, []⟩) (fun pattern _ => some pattern) fun _ _ => none) =
        some "x if x == x" := by decide +kernel
    cases hst : emitPattern cx .f64 x ⟨b, [], 0, [], 0, []⟩ with
    | error _ st =>
      rw [hst] at hpattern
      cases hpattern
    | ok pattern st =>
      rw [hst] at hpattern
      obtain rfl := Option.some.inj hpattern
      obtain ⟨code, hcode, h⟩ := hguard .f64 x _ _ _ rfl hst
      exact ⟨code, hcode, h.2 ⟨"x", .ident (by decide), by decide +kernel⟩⟩

/-- A function that compares its own `x` in a case, and looks for its own `e` in a sequence. -/
def FunctionDecl.capturesOwn : FunctionDecl :=
  let xs := Expr.ofKind (.ident "xs")
  let e := Expr.ofKind (.ident "e")
  let x := Expr.ofKind (.ident "x")
  let zero := Expr.ofKind (.literal (.number ⟨0⟩))
  ⟨.zero, "find", [⟨"xs", .seq .f64, false⟩, ⟨"e", .f64, false⟩, ⟨"x", .f64, false⟩], .f64, .ofStmts [
    .switch .zero e [⟨.zero, some x, [.ret .zero (some zero)], false⟩],
    .ret .zero (some (.ofKind (.methodCall xs "indexOf" none [e] none)))], false, none⟩

/-- The closure compares each element with itself, and the guard the value with itself. -/
theorem Program.capturesOwn_compile :
    (({ decls := [.function .capturesOwn] } : Program).compile {}).value.toOption.map (·.source) =
      some ("fn find(xs: Vec<f64>, e: f64, x: f64) -> f64 \x7b\n    match e \x7b\n" ++
        "        x if x == x => \x7b\n            return 0;\n        \x7d\n        _ => \x7b\x7d\n" ++
        "    \x7d\n    xs.iter().position(|e| *e == e).map(|i| i as f64).unwrap_or(-1.0)\n\x7d\n") := by
  decide +kernel

end Oxidize
