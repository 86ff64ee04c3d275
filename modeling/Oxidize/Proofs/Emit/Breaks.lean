import Oxidize.Compile
import Oxidize.Proofs.Emit.BreakText
import Oxidize.Proofs.Emit.Follow

/-!
# The `break`s that are emitted

A switch becomes a `match`, in which `break` leaves the loop around it. So a `break` that leaves a
switch has to be dropped, and emission drops it exactly where it is the last statement of a case.
`FunctionDecl.breaks` lists the `break`s of a function by the loop or switch that each one leaves,
and `FunctionDecl.emit_breakLines` counts the lines that are emitted for them: one for every
`break` that does not end a case. Hence those of the loops, and no others, are emitted exactly if
every `break` of a switch ends a case; `Program.leavesLoop_compile` is a program where one does not.

`Emitting.Breaks` counts the lines of `break`s that an emission adds; the lines of an arm are counted
where they are emitted, not where they are captured.
-/

namespace Oxidize

open Emitting (rendering line append note declare indented framed captured)

/-! ## The `break`s of a function -/

/-- What a `break` leaves: the innermost loop or switch around it. -/
inductive Enclosure where
  | nothing
  | loop
  | switch
deriving DecidableEq, Repr

/-- A `break` of a function. -/
structure BreakSite where
  leaves : Enclosure
  /-- The `break` is the last statement of a case of a switch. -/
  endsCase : Bool
deriving DecidableEq, Repr

mutual

/-- The `break`s of a statement that stands in the given enclosure. -/
def Stmt.breaks (around : Enclosure) : Stmt → List BreakSite
  | .letVar _ _ _ _ _ | .assign _ _ _ | .ret _ _ | .continueLoop _ | .expr _ => []
  | .ifElse _ _ thenBlock elseBlock => thenBlock.breaks around ++ Block.breaks? around elseBlock
  | .whileLoop _ _ body | .forEach _ _ _ body => body.breaks .loop
  | .switch _ _ cases => SwitchCase.breaksList cases
  | .breakLoop _ => [⟨around, false⟩]
  | .block body => body.breaks around

/-- The `break`s of statements. -/
def Stmt.breaksList (around : Enclosure) : List Stmt → List BreakSite
  | [] => []
  | s :: ss => s.breaks around ++ Stmt.breaksList around ss

/-- The `break`s of a block. -/
def Block.breaks (around : Enclosure) : Block → List BreakSite
  | ⟨_, stmts⟩ => Stmt.breaksList around stmts

/-- The `break`s of an optional block. -/
def Block.breaks? (around : Enclosure) : Option Block → List BreakSite
  | none => []
  | some body => body.breaks around

/-- The `break`s of the cases of a switch. -/
def SwitchCase.breaksList : List SwitchCase → List BreakSite
  | [] => []
  | ⟨_, _, body, _⟩ :: cases => Stmt.caseBreaks body ++ SwitchCase.breaksList cases

/-- The `break`s of the body of a case. -/
def Stmt.caseBreaks : List Stmt → List BreakSite
  | [] => []
  | [.breakLoop _] => [⟨.switch, true⟩]
  | s :: ss => s.breaks .switch ++ Stmt.caseBreaks ss

end

/-- The `break`s of a function. -/
def FunctionDecl.breaks (f : FunctionDecl) : List BreakSite :=
  Stmt.breaksList .nothing f.body.stmts

/-- How many `break`s do not end a case. -/
def kept (sites : List BreakSite) : Nat :=
  sites.countP (!·.endsCase)

/-- The kept `break`s of two lists are those of both. -/
theorem kept_append (a b : List BreakSite) : kept (a ++ b) = kept a + kept b :=
  List.countP_append

mutual

/-- Only a `break` that leaves a switch ends a case. -/
theorem Stmt.leaves_of_endsCase :
    (s : Stmt) → (around : Enclosure) → ∀ b ∈ s.breaks around, b.endsCase = true → b.leaves = .switch
  | .letVar .., _ | .assign .., _ | .ret .., _ | .continueLoop _, _ | .expr _, _ => nofun
  | .ifElse _ _ thenBlock elseBlock, around => by
    rw [Stmt.breaks]
    exact List.forall_mem_append.2
      ⟨thenBlock.leaves_of_endsCase around, Block.leaves_of_endsCase? elseBlock around⟩
  | .whileLoop _ _ body, _ | .forEach _ _ _ body, _ => body.leaves_of_endsCase .loop
  | .switch _ _ cases, _ => SwitchCase.leaves_of_endsCase cases
  | .breakLoop _, around => by
    intro b hb hends
    rw [List.mem_singleton.1 hb] at hends
    cases hends
  | .block body, around => body.leaves_of_endsCase around

/-- So it is among statements. -/
theorem Stmt.leaves_of_endsCaseList :
    (ss : List Stmt) → (around : Enclosure) →
      ∀ b ∈ Stmt.breaksList around ss, b.endsCase = true → b.leaves = .switch
  | [], _ => nofun
  | s :: ss, around => by
    rw [Stmt.breaksList]
    exact List.forall_mem_append.2
      ⟨s.leaves_of_endsCase around, Stmt.leaves_of_endsCaseList ss around⟩

/-- So it is in a block. -/
theorem Block.leaves_of_endsCase :
    (body : Block) → (around : Enclosure) →
      ∀ b ∈ body.breaks around, b.endsCase = true → b.leaves = .switch
  | ⟨_, stmts⟩, around => Stmt.leaves_of_endsCaseList stmts around

/-- So it is in an optional block. -/
theorem Block.leaves_of_endsCase? :
    (body : Option Block) → (around : Enclosure) →
      ∀ b ∈ Block.breaks? around body, b.endsCase = true → b.leaves = .switch
  | none, _ => nofun
  | some body, around => body.leaves_of_endsCase around

/-- So it is in the cases of a switch. -/
theorem SwitchCase.leaves_of_endsCase :
    (cases : List SwitchCase) →
      ∀ b ∈ SwitchCase.breaksList cases, b.endsCase = true → b.leaves = .switch
  | [] => nofun
  | ⟨_, _, body, _⟩ :: cases => by
    rw [SwitchCase.breaksList]
    exact List.forall_mem_append.2
      ⟨Stmt.leaves_of_endsCaseBody body, SwitchCase.leaves_of_endsCase cases⟩

/-- The `break` that ends the body of a case leaves the switch. -/
theorem Stmt.leaves_of_endsCaseBody :
    (ss : List Stmt) → ∀ b ∈ Stmt.caseBreaks ss, b.endsCase = true → b.leaves = .switch
  | [] => nofun
  | [s] => by
    cases s with
    | breakLoop span =>
      intro b hb _
      rw [List.mem_singleton.1 hb]
    | _ =>
      exact List.forall_mem_append.2 ⟨Stmt.leaves_of_endsCase _ .switch, nofun⟩
  | s :: s' :: ss => by
    rw [Stmt.caseBreaks]
    · exact List.forall_mem_append.2
        ⟨s.leaves_of_endsCase .switch, Stmt.leaves_of_endsCaseBody (s' :: ss)⟩
    · nofun

end

/-! ## The end of a case -/

namespace SwitchCase

/-- The body of a case without the `break` that ends it. -/
def keptBody (c : SwitchCase) : List Stmt :=
  if c.endsWithBreak then c.body.dropLast else c.body

/-- Only the last statement of a body may be dropped. -/
theorem keptBody_cons_cons (span : Span) (value : Option Expr) (s s' : Stmt) (ss : List Stmt)
    (falls : Bool) : (⟨span, value, s :: s' :: ss, falls⟩ : SwitchCase).keptBody =
      s :: (⟨span, value, s' :: ss, falls⟩ : SwitchCase).keptBody := by
  simp only [keptBody, endsWithBreak, List.getLast?_cons_cons, List.dropLast_cons_cons]
  exact (apply_ite (s :: ·) _ _ _).symm

/-- A case is empty if nothing of its body is kept. -/
theorem isEmptyCase_body (c : SwitchCase) : isEmptyCase c.body = c.keptBody.isEmpty := by
  obtain ⟨span, value, body, falls⟩ := c
  match body with
  | [] => rfl
  | [s] => cases s <;> rfl
  | s :: s' :: ss =>
    rw [keptBody_cons_cons]
    cases s <;> rfl

/-- The lines of the body of a case are those of what is kept of it. -/
theorem emitCaseBody_body (cx : FnContext) (c : SwitchCase) :
    Stmt.emitCaseBody cx c.body = Stmt.emitList cx c.keptBody := by
  obtain ⟨span, value, body, falls⟩ := c
  induction body with
  | nil => rfl
  | cons s ss ih =>
    cases ss with
    | nil => cases s <;> rfl
    | cons s' ss =>
      rw [keptBody_cons_cons, Stmt.emitList, ← ih, Stmt.emitCaseBody]
      nofun

/-- The `break` that ends a case is the last one of its body. -/
theorem caseBreaks_body (c : SwitchCase) :
    Stmt.caseBreaks c.body = Stmt.breaksList .switch c.keptBody ++
      if c.endsWithBreak then [⟨.switch, true⟩] else [] := by
  obtain ⟨span, value, body, falls⟩ := c
  induction body with
  | nil => rfl
  | cons s ss ih =>
    cases ss with
    | nil => cases s <;> simp [keptBody, endsWithBreak, Stmt.caseBreaks, Stmt.breaksList, Stmt.isBreak]
    | cons s' ss =>
      rw [keptBody_cons_cons, Stmt.breaksList, List.append_assoc, Stmt.caseBreaks]
      · exact congrArg (s.breaks .switch ++ ·) ih
      · nofun

end SwitchCase

/-! ## Lines of statements -/

section
variable {cx : FnContext} {α β : Type} {Q : α → Prop} {R : β → Prop}

/-- Indentation does not make a line a `break`. -/
theorem isBreakLine_indentation (level : Nat) (text : String) :
    isBreakLine (indentation level ++ text) = isBreakLine text := by
  have hblanks : ∀ c ∈ (indentation level).toList, (c == ' ') = true := by
    intro c hc
    rw [indentation, String.toList_ofList, List.mem_replicate] at hc
    exact beq_iff_eq.2 hc.2
  rw [isBreakLine, isBreakLine, String.toList_append, List.dropWhile_append_of_pos hblanks]

/-- The emission adds no line of a `break`, and its result has the property. -/
def Emitting.Quiet (Q : α → Prop) (x : Emitting α) : Prop :=
  ∀ st a st', x.run st = .ok a st' → breakLines st'.lines = breakLines st.lines ∧ Q a

/-- The emission adds `n` lines of `break`s, those that its result holds among them. -/
def Emitting.Breaks (held : α → Nat) (x : Emitting α) (n : Nat) : Prop :=
  ∀ st a st', x.run st = .ok a st' → breakLines st'.lines + held a = breakLines st.lines + n

/-- The emission adds `n` lines of `break`s. -/
abbrev Emitting.Adds (x : Emitting α) (n : Nat) : Prop :=
  Emitting.Breaks (fun _ => 0) x n

namespace Emitting.Quiet

/-- A result that is given adds no `break`. -/
theorem pure (a : α) : Emitting.Quiet (fun _ => True) (Pure.pure a : Emitting α) := by
  rintro st a' st' ⟨⟩
  exact ⟨rfl, trivial⟩

/-- A change of the state that keeps the lines adds no `break`. -/
theorem modify {f : Emission → Emission} (h : ∀ st, (f st).lines = st.lines) :
    Emitting.Quiet (fun _ => True) (modify f : Emitting PUnit) := by
  rintro st a' st' ⟨⟩
  exact ⟨congrArg breakLines (h st), trivial⟩

/-- Two quiet emissions in a row are quiet. -/
theorem bind {x : Emitting α} {f : α → Emitting β} (hx : Emitting.Quiet Q x)
    (hf : ∀ a, Q a → Emitting.Quiet R (f a)) : Emitting.Quiet R (x >>= f) := by
  intro st c st'' h
  obtain ⟨a, st', h₁, h₂⟩ := Emitting.exists_of_run_bind h
  obtain ⟨hlines, hQ⟩ := hx st a st' h₁
  obtain ⟨hlines', hR⟩ := hf a hQ st' c st'' h₂
  exact ⟨hlines'.trans hlines, hR⟩

/-- Rendering writes no line, so it adds no `break`. -/
theorem rendering {x : Bindings → Rendering α} (hx : ∀ b, Rendering.Yields Q (x b)) :
    Emitting.Quiet Q (do Emitting.rendering (x (← Emitting.bindings))) := by
  intro st a st' h
  change Emitting.rendering (x st.bindings) st = .ok a st' at h
  unfold Emitting.rendering at h
  split at h
  · next a₀ reads hrun =>
    cases h
    exact ⟨rfl, hx _ _ _ _ hrun⟩
  · cases h

/-- Declaring a variable adds no `break`. -/
theorem declare (name : String) : Emitting.Quiet (fun _ => True) (declare name) := by
  intro st a st' h
  change EStateM.Result.ok st.bindings.next
    { st with bindings := st.bindings.declare name } = .ok a st' at h
  cases h
  exact ⟨rfl, trivial⟩

/-- A line adds a `break` exactly if it is one. -/
theorem breakLines_line {text : String} {st st' : Emission} {a : Unit}
    (h : (line text).run st = .ok a st') :
    breakLines st'.lines = breakLines st.lines + if isBreakLine text then 1 else 0 := by
  cases h
  change breakLines (st.lines ++ [indentation st.indent ++ text]) = _
  rw [breakLines_append]
  simp only [breakLines, List.countP_singleton, isBreakLine_indentation]

/-- A line that is no `break` is quiet. -/
theorem line {text : String} (h : isBreakLine text = false) :
    Emitting.Quiet (fun _ => True) (Emitting.line text) := by
  intro st a st' hrun
  rw [breakLines_line hrun, h]
  exact ⟨rfl, trivial⟩

/-- Recording a case that falls through adds no `break`. -/
theorem noteFallthrough (pattern : String) :
    Emitting.Quiet (fun _ => True) (noteFallthrough pattern) :=
  .bind (.modify fun _ => rfl) fun _ _ => .modify fun _ => rfl

end Emitting.Quiet

namespace Emitting.Breaks

variable {x : Emitting α} {f : α → Emitting β} {held : α → Nat} {held' : β → Nat} {m n : Nat}

/-- A result that is given holds its `break`s and adds no other. -/
theorem pure (a : α) : Emitting.Breaks held (Pure.pure a) (held a) := by
  rintro st a' st' ⟨⟩
  rfl

/-- A quiet emission adds none. -/
theorem quiet (hx : Emitting.Quiet Q x) : Emitting.Adds x 0 := by
  intro st a st' h
  rw [(hx st a st' h).1]

/-- What the first result holds is among the lines of the rest. -/
theorem bind (hx : Emitting.Breaks held x n) (hf : ∀ a, Emitting.Breaks held' (f a) (held a + m)) :
    Emitting.Breaks held' (x >>= f) (n + m) := by
  intro st c st'' h
  obtain ⟨a, st', h₁, h₂⟩ := Emitting.exists_of_run_bind h
  have hfirst := hx st a st' h₁
  have hrest := hf a st' c st'' h₂
  omega

/-- The `break`s of two emissions in a row. -/
theorem andThen (hx : Emitting.Adds x n) (hf : ∀ a, Emitting.Breaks held' (f a) m) :
    Emitting.Breaks held' (x >>= f) (n + m) :=
  hx.bind fun a => by
    rw [Nat.zero_add]
    exact hf a

/-- A quiet emission in front does not change the count. -/
theorem quiet_bind (hx : Emitting.Quiet Q x) (hf : ∀ a, Q a → Emitting.Breaks held' (f a) m) :
    Emitting.Breaks held' (x >>= f) m := by
  intro st c st'' h
  obtain ⟨a, st', h₁, h₂⟩ := Emitting.exists_of_run_bind h
  obtain ⟨hlines, hQ⟩ := hx st a st' h₁
  have hrest := hf a hQ st' c st'' h₂
  rwa [hlines] at hrest

/-- A quiet emission behind does not change the count. -/
theorem bind_quiet (hx : Emitting.Adds x n) (hf : ∀ a, Emitting.Quiet (fun _ => True) (f a)) :
    Emitting.Adds (x >>= f) n :=
  hx.andThen (m := 0) fun a st c st' h => by rw [(hf a st c st' h).1]

/-- Captured lines add their `break`s where they are appended. -/
theorem append (lines : List String) : Emitting.Adds (append lines) (breakLines lines) := by
  rintro st a st' ⟨⟩
  exact breakLines_append _ _

/-- Indentation adds no `break`. -/
theorem indented {x : Emitting Unit} (hx : Emitting.Adds x n) : Emitting.Adds (indented x) n :=
  .quiet_bind (.modify fun _ => rfl) fun _ _ => hx.bind_quiet fun _ => .modify fun _ => rfl

/-- A frame for variables adds no `break`. -/
theorem framed {x : Emitting Unit} (hx : Emitting.Adds x n) : Emitting.Adds (framed x) n :=
  .quiet_bind (.modify fun _ => rfl) fun _ _ => hx.bind_quiet fun _ => .modify fun _ => rfl

/-- The lines are taken away from what has been emitted and held by the result. -/
theorem captured {x : Emitting Unit} (hx : Emitting.Adds x n) :
    Emitting.Breaks breakLines (captured x) n := by
  intro st lines st' h
  obtain ⟨mid, hrun, rfl, rfl⟩ := Emitting.exists_of_run_captured h
  have hadds : breakLines mid.lines = 0 + n := hx _ _ _ hrun
  rw [hadds, Nat.zero_add]

end Emitting.Breaks

/-- Rendering an expression adds no `break`. -/
theorem emitExpr_quiet (pos : ReadPosition) (e : Expr) :
    Emitting.Quiet (fun _ => True) (emitExpr cx pos e) :=
  .rendering fun _ _ _ _ _ => trivial

/-- Rendering a value adds no `break`. -/
theorem emitValue_quiet (expected : Option Ty) (e : Expr) :
    Emitting.Quiet (fun _ => True) (emitValue cx expected e) :=
  .rendering fun _ _ _ _ _ => trivial

/-- Rendering the target of an assignment adds no `break`. -/
theorem emitTarget_quiet (target : Expr) :
    Emitting.Quiet (fun _ => True) (emitTarget cx target) := by
  unfold emitTarget
  split
  · exact .pure _
  · exact emitExpr_quiet _ _

/-- Rendering the pattern of a case adds no `break`. -/
theorem emitCasePattern_quiet (scrutineeTy : Ty) (value : Option Expr) :
    Emitting.Quiet (fun _ => True) (emitCasePattern cx scrutineeTy value) := by
  cases value with
  | none => exact .pure _
  | some value =>
    rw [emitCasePattern]
    unfold emitPattern
    split
    case h_5 => exact (emitExpr_quiet _ _).bind fun _ _ => .pure _
    all_goals exact .pure _

/-- The lines of `break`s that arms hold. -/
def Arm.breakLines (arms : List Arm) : Nat :=
  Oxidize.breakLines (arms.flatMap (·.lines))

/-- Emitting the default arms last loses none of their lines. -/
theorem Arm.breakLines_filter (arms : List Arm) :
    Oxidize.breakLines ((arms.filter (!·.isDefault)).flatMap (·.lines)) +
      Oxidize.breakLines ((arms.filter (·.isDefault)).flatMap (·.lines)) = Arm.breakLines arms := by
  rw [Nat.add_comm, ← breakLines_append, ← List.flatMap_append]
  exact ((List.filter_append_perm (·.isDefault) arms).flatMap_right _).countP_eq _

/-- The arm of one more case. -/
theorem Emitting.Breaks.cons_arm {x : Emitting (List Arm)} {n : Nat}
    (hx : Emitting.Breaks Arm.breakLines x n) (arm : Arm) :
    Emitting.Breaks Arm.breakLines (x >>= fun arms => Pure.pure (arm :: arms))
      (breakLines arm.lines + n) := by
  rw [Nat.add_comm]
  refine hx.bind fun arms => ?_
  rw [Nat.add_comm, Arm.breakLines, ← breakLines_append, ← List.flatMap_cons (f := Arm.lines)]
  exact .pure (arm :: arms)

/-- The alternative of a conditional. -/
theorem adds_alternative {stmts : List Stmt} {n : Nat}
    (h : Emitting.Adds (Stmt.emitList cx stmts) n) :
    Emitting.Adds (do line "\x7d else \x7b"; indented (framed (Stmt.emitList cx stmts))) n :=
  .quiet_bind (.line (Foreign.isBreakLine ⟨'l', by simp, by decide⟩)) fun _ _ => h.framed.indented

/-- The arm of a case. The `break` that a case without other statements consists of ends it. -/
theorem breaks_case (pattern : String) {body : List Stmt}
    (h : Emitting.Adds (Stmt.emitCaseBody cx body) (kept (Stmt.caseBreaks body))) :
    Emitting.Breaks breakLines
      (captured do
        if isEmptyCase body then line (pattern ++ " => \x7b\x7d")
        else do
          line (pattern ++ " => \x7b")
          indented (framed (Stmt.emitCaseBody cx body))
          line "\x7d")
      (kept (Stmt.caseBreaks body)) := by
  refine .captured ?_
  split
  · next hempty =>
    have hline : Emitting.Adds (line (pattern ++ " => \x7b\x7d")) 0 :=
      .quiet (.line (Foreign.isBreakLine ⟨'=', by simp, by decide⟩))
    unfold isEmptyCase at hempty
    split at hempty
    · exact hline
    · exact hline
    · cases hempty
  · refine .quiet_bind (.line (Foreign.isBreakLine ⟨'=', by simp, by decide⟩)) fun _ _ => ?_
    exact h.framed.indented.bind_quiet fun _ => .line (by decide)

mutual

/-- The lines of a statement hold a `break` for each one in it that does not end a case. -/
theorem Stmt.emit_adds :
    (s : Stmt) → NamedByWords s.nodes → (around : Enclosure) →
      Emitting.Adds (s.emit cx) (kept (s.breaks around))
  | .letVar _ name ty mutable none, _, _ => by
    rw [Stmt.emit]
    exact .quiet_bind (.pure _) fun _ _ => .quiet_bind (.declare name) fun _ _ =>
      .quiet (.line (Foreign.isBreakLine ⟨'l', by simp, by decide⟩))
  | .letVar _ name ty mutable (some init), _, _ => by
    rw [Stmt.emit]
    exact .quiet_bind (emitValue_quiet _ _) fun _ _ => .quiet_bind (.pure _) fun _ _ =>
      .quiet_bind (.declare name) fun _ _ =>
        .quiet (.line (Foreign.isBreakLine ⟨'l', by simp, by decide⟩))
  | .assign _ target value, _, _ => by
    rw [Stmt.emit]
    exact .quiet_bind (emitTarget_quiet target) fun _ _ => .quiet_bind (emitValue_quiet _ _) fun _ _ =>
      .quiet (.line (Foreign.isBreakLine ⟨'=', by simp, by decide⟩))
  | .ret _ (some value), _, _ => by
    rw [Stmt.emit]
    exact .quiet_bind (emitValue_quiet _ _) fun _ _ =>
      .quiet (.line (Foreign.isBreakLine ⟨'t', by simp, by decide⟩))
  | .ret _ none, _, _ | .continueLoop _, _, _ => by
    rw [Stmt.emit]
    exact .quiet (.line (by decide))
  | .ifElse _ cond thenBlock elseBlock, h, around => by
    rw [Stmt.nodes] at h
    obtain ⟨-, h⟩ := List.forall_mem_append.1 h
    obtain ⟨hthen, helse⟩ := List.forall_mem_append.1 h
    rw [Stmt.emit, Stmt.breaks, kept_append]
    refine .quiet_bind (emitExpr_quiet _ _) fun _ _ => ?_
    refine .quiet_bind (.line (Foreign.isBreakLine ⟨'i', by simp, by decide⟩)) fun _ _ => ?_
    refine (thenBlock.emit_adds hthen around).andThen fun _ => ?_
    exact (Block.emitElse_adds elseBlock helse around).bind_quiet fun _ => .line (by decide)
  | .whileLoop _ cond body, h, _ => by
    rw [Stmt.nodes] at h
    rw [Stmt.emit, Stmt.breaks]
    refine .quiet_bind (emitExpr_quiet _ _) fun _ _ => ?_
    refine .quiet_bind (.line (Foreign.isBreakLine ⟨'w', by simp, by decide⟩)) fun _ _ => ?_
    exact (body.emit_adds (List.forall_mem_append.1 h).2 .loop).bind_quiet fun _ => .line (by decide)
  | .forEach _ var iterable body, h, _ => by
    rw [Stmt.nodes] at h
    rw [Stmt.emit, Stmt.breaks]
    refine .quiet_bind (emitExpr_quiet _ _) fun _ _ => .bind_quiet (.framed ?_) fun _ =>
      .line (by decide)
    refine .quiet_bind (.declare var) fun _ _ => ?_
    refine .quiet_bind (.line (Foreign.isBreakLine ⟨'f', by simp, by decide⟩)) fun _ _ => ?_
    exact body.emit_adds (List.forall_mem_append.1 h).2 .loop
  | .switch _ scrutinee cases, h, _ => by
    rw [Stmt.nodes] at h
    rw [Stmt.emit, Stmt.breaks]
    refine .quiet_bind (emitExpr_quiet _ _) fun _ _ => ?_
    refine .quiet_bind (.line (Foreign.isBreakLine ⟨'m', by simp, by decide⟩)) fun _ _ => ?_
    refine .bind_quiet (.indented ?_) fun _ => .line (by decide)
    refine (SwitchCase.emitArms_breaks _ cases (List.forall_mem_append.1 h).2).bind (m := 0)
      fun arms => ?_
    rw [Nat.add_zero, ← Arm.breakLines_filter]
    refine .andThen (.append _) fun _ => .bind_quiet (.append _) fun _ => ?_
    split
    · exact .pure _
    · exact .line (by decide)
  | .breakLoop _, _, _ => by
    rw [Stmt.emit]
    intro st a st' h
    exact Emitting.Quiet.breakLines_line h
  | .expr e, h, _ => by
    rw [Stmt.emit]
    exact .quiet_bind (.rendering fun b => e.render_unbroken b h .value) fun _ hcode =>
      .quiet (.line hcode.stmt)
  | .block body, h, around => by
    rw [Stmt.emit, Stmt.breaks]
    refine .quiet_bind (.line (by decide)) fun _ _ => ?_
    exact (body.emit_adds h around).bind_quiet fun _ => .line (by decide)

/-- The lines of statements hold the `break`s of all. -/
theorem Stmt.emitList_adds :
    (ss : List Stmt) → NamedByWords (Stmt.nodesList ss) → (around : Enclosure) →
      Emitting.Adds (Stmt.emitList cx ss) (kept (Stmt.breaksList around ss))
  | [], _, _ => .pure _
  | s :: ss, h, around => by
    rw [Stmt.nodesList] at h
    obtain ⟨hs, hss⟩ := List.forall_mem_append.1 h
    rw [Stmt.emitList, Stmt.breaksList, kept_append]
    exact (s.emit_adds hs around).andThen fun _ => Stmt.emitList_adds ss hss around

/-- The lines of a block hold the `break`s of its statements. -/
theorem Block.emit_adds :
    (body : Block) → NamedByWords body.nodes → (around : Enclosure) →
      Emitting.Adds (body.emit cx) (kept (body.breaks around))
  | ⟨_, stmts⟩, h, around => by
    rw [Block.emit, Block.breaks]
    exact .indented (.framed (Stmt.emitList_adds stmts h around))

/-- The lines of an alternative hold the `break`s in it. -/
theorem Block.emitElse_adds :
    (body : Option Block) → NamedByWords (Block.nodes? body) → (around : Enclosure) →
      Emitting.Adds (Block.emitElse cx body) (kept (Block.breaks? around body))
  | none, _, _ => .pure _
  | some ⟨_, [s]⟩, h, around => by
    rw [Block.nodes?, Block.nodes] at h
    cases s with
    | ifElse span cond thenBlock elseBlock =>
      rw [Stmt.nodesList, Stmt.nodes] at h
      obtain ⟨-, h⟩ := List.forall_mem_append.1 (List.forall_mem_append.1 h).1
      obtain ⟨hthen, helse⟩ := List.forall_mem_append.1 h
      rw [Block.emitElse, Block.breaks?, Block.breaks, Stmt.breaksList, Stmt.breaksList,
        List.append_nil, Stmt.breaks, kept_append]
      refine .quiet_bind (emitExpr_quiet _ _) fun _ _ => ?_
      refine .quiet_bind (.line (Foreign.isBreakLine ⟨'i', by simp, by decide⟩)) fun _ _ => ?_
      exact (thenBlock.emit_adds hthen around).andThen fun _ =>
        Block.emitElse_adds elseBlock helse around
    | _ => exact adds_alternative (Stmt.emitList_adds _ h around)
  | some ⟨_, []⟩, h, around => adds_alternative (Stmt.emitList_adds [] h around)
  | some ⟨_, s :: s' :: ss⟩, h, around => by
    rw [Block.emitElse]
    · exact adds_alternative (Stmt.emitList_adds (s :: s' :: ss) h around)
    · nofun

/-- The lines of the arms hold the `break`s of the cases but those that end one. -/
theorem SwitchCase.emitArms_breaks (scrutineeTy : Ty) :
    (cases : List SwitchCase) → NamedByWords (SwitchCase.nodesList cases) →
      Emitting.Breaks Arm.breakLines (SwitchCase.emitArms cx scrutineeTy cases)
        (kept (SwitchCase.breaksList cases))
  | [], _ => .pure _
  | ⟨_, value, body, _⟩ :: cases, h => by
    rw [SwitchCase.nodesList] at h
    obtain ⟨hbody, hcases⟩ := List.forall_mem_append.1 (List.forall_mem_append.1 h).2
    rw [SwitchCase.emitArms, SwitchCase.breaksList, kept_append]
    refine .quiet_bind (emitCasePattern_quiet _ _) fun pattern _ => ?_
    have hcase := breaks_case pattern (Stmt.emitCaseBody_adds body hbody)
    have harms := hcase.bind
      fun lines => (SwitchCase.emitArms_breaks scrutineeTy cases hcases).cons_arm ⟨value.isNone, lines⟩
    dsimp only
    split
    · exact .quiet_bind (.noteFallthrough pattern) fun _ _ => harms
    · exact harms

/-- The lines of the body of a case hold its `break`s but the one that ends it. -/
theorem Stmt.emitCaseBody_adds :
    (ss : List Stmt) → NamedByWords (Stmt.nodesList ss) →
      Emitting.Adds (Stmt.emitCaseBody cx ss) (kept (Stmt.caseBreaks ss))
  | [], _ => .pure _
  | [s], h => by
    rw [Stmt.nodesList] at h
    have hs := (s.emit_adds (List.forall_mem_append.1 h).1 .switch).bind_quiet
      (f := fun _ => pure ()) fun _ => .pure _
    rw [← List.append_nil (s.breaks .switch)] at hs
    cases s with
    | breakLoop span => exact .pure _
    | _ => exact hs
  | s :: s' :: ss, h => by
    rw [Stmt.nodesList] at h
    obtain ⟨hs, hss⟩ := List.forall_mem_append.1 h
    rw [Stmt.emitCaseBody, Stmt.caseBreaks, kept_append]
    · exact (s.emit_adds hs .switch).andThen fun _ => Stmt.emitCaseBody_adds (s' :: ss) hss
    · nofun
    · nofun

end

/-- The last statement of a body keeps its `break`s, also where it is written as an expression. -/
theorem Stmt.emitTail_adds (s : Stmt) (h : NamedByWords s.nodes) (around : Enclosure) :
    Emitting.Adds (s.emitTail cx) (kept (s.breaks around)) := by
  unfold Stmt.emitTail
  split
  · next value =>
    exact .quiet_bind (.rendering fun b => value.renderValue_unbroken h b _) fun _ hcode =>
      .quiet (.line hcode.tail)
  · next e =>
    refine .quiet_bind (Q := fun _ => True) ?_ fun _ _ => ?_
    · rintro st a st' ⟨⟩
      exact ⟨rfl, trivial⟩
    · split
      · exact Stmt.emit_adds _ h around
      · exact .quiet_bind (.rendering fun b => e.renderValue_unbroken h b _) fun _ hcode =>
          .quiet (.line hcode.tail)
  · exact Stmt.emit_adds _ h around

/-- The lines of the body of a function hold its `break`s. -/
theorem Stmt.emitBody_adds (ss : List Stmt) (h : NamedByWords (Stmt.nodesList ss))
    (around : Enclosure) :
    Emitting.Adds (Stmt.emitBody cx ss) (kept (Stmt.breaksList around ss)) := by
  induction ss with
  | nil => exact .pure _
  | cons s ss ih =>
    rw [Stmt.nodesList] at h
    obtain ⟨hs, hss⟩ := List.forall_mem_append.1 h
    rw [Stmt.breaksList]
    cases ss with
    | nil =>
      rw [Stmt.emitBody, Stmt.breaksList, List.append_nil]
      split
      · exact s.emit_adds hs around
      · exact s.emitTail_adds hs around
    | cons s' ss =>
      rw [Stmt.emitBody, kept_append]
      · exact (s.emit_adds hs around).andThen fun _ => ih hss
      · nofun

/-- The first line of a function has a parenthesis, and the last one is a brace. -/
theorem FunctionDecl.emitLines_adds (f : FunctionDecl) (h : NamedByWords f.nodes) :
    Emitting.Adds (f.emitLines cx) (kept f.breaks) := by
  have hhead : Foreign (f.headText cx) :=
    ((((callText_foreign _ _).append_left _).append_right _).append_right _)
  refine .quiet_bind (.line hhead.isBreakLine) fun _ _ => ?_
  exact (Stmt.emitBody_adds f.body.stmts h .nothing).indented.bind_quiet fun _ => .line (by decide)

end

/-! ## Counting -/

/-- The `break`s that do not end a case, by what they leave. -/
theorem kept_eq {sites : List BreakSite} (hinside : ∀ b ∈ sites, b.leaves ≠ .nothing)
    (hends : ∀ b ∈ sites, b.endsCase = true → b.leaves = .switch) :
    kept sites = sites.countP (·.leaves == .loop) +
      sites.countP (fun b => b.leaves == .switch && !b.endsCase) := by
  induction sites with
  | nil => rfl
  | cons b sites ih =>
    obtain ⟨hb, hinside⟩ := List.forall_mem_cons.1 hinside
    obtain ⟨hb', hends⟩ := List.forall_mem_cons.1 hends
    have hrest := ih hinside hends
    obtain ⟨leaves, endsCase⟩ := b
    rw [kept] at hrest ⊢
    cases leaves <;> cases endsCase <;> simp_all <;> omega

namespace FunctionDecl

/-- A `break` gets a line unless it ends a case. So the lines are as many as the `break`s that leave
a loop, exactly if each one that leaves a switch ends a case; any other one of them becomes a
`break` of the loop around the switch. -/
theorem emit_breakLines {f : FunctionDecl} {r : Registry} {copy : CopySet} {indent : Nat}
    {st : Emission} (hnames : NamedByWords f.nodes) (hinside : ∀ b ∈ f.breaks, b.leaves ≠ .nothing)
    (hemit : f.emit r copy indent = .ok () st) :
    breakLines st.lines = f.breaks.countP (·.leaves == .loop) +
        f.breaks.countP (fun b => b.leaves == .switch && !b.endsCase) ∧
      (breakLines st.lines = f.breaks.countP (·.leaves == .loop) ↔
        ∀ b ∈ f.breaks, b.leaves = .switch → b.endsCase = true) := by
  have hadds : breakLines st.lines + 0 = 0 + kept f.breaks := f.emitLines_adds hnames _ _ _ hemit
  have hkept := kept_eq hinside (Stmt.leaves_of_endsCaseList f.body.stmts .nothing)
  have hlines : breakLines st.lines = f.breaks.countP (·.leaves == .loop) +
      f.breaks.countP (fun b => b.leaves == .switch && !b.endsCase) := by omega
  refine ⟨hlines, ?_⟩
  rw [hlines, Nat.add_eq_left, List.countP_eq_zero]
  simp

end FunctionDecl

/-- `while (n < 1) { switch (n) { case 1: if (done) break; break; } if (done) break; n = n + 1; }` -/
def FunctionDecl.leavesLoop : FunctionDecl :=
  let n := Expr.ofKind (.ident "n")
  let one := Expr.ofKind (.literal (.number ⟨0x3ff0000000000000⟩))
  let leave := Stmt.ifElse .zero (.ofKind (.ident "done")) (.ofStmts [.breakLoop .zero]) none
  ⟨.zero, "count", [⟨"n", .f64, false⟩, ⟨"done", .bool, false⟩], .void, .ofStmts [
    .whileLoop .zero (.ofKind (.binary .lt n one)) (.ofStmts [
      .switch .zero n [.ofBody (some one) [leave, .breakLoop .zero]],
      leave,
      .assign .zero n (.ofKind (.binary .add n one))])],
    false, none⟩

/-- Of the two `break`s of the switch the first one is emitted, besides that of the loop. -/
theorem FunctionDecl.leavesLoop_breakLines :
    leavesLoop.breaks = [⟨.switch, false⟩, ⟨.switch, true⟩, ⟨.loop, false⟩] ∧
      ∃ st, leavesLoop.emit .empty .empty 0 = .ok () st ∧ breakLines st.lines = 2 := by
  have hok : (EStateM.Result.casesOn (motive := fun _ => Bool) (leavesLoop.emit .empty .empty 0)
      (fun _ _ => true) fun _ _ => false) = true := by decide +kernel
  have hnames : ∀ e ∈ leavesLoop.nodes,
      (e.ident?.all fun name => Source.isWord name.toList) = true := by decide +kernel
  refine ⟨by decide, ?_⟩
  cases hst : leavesLoop.emit .empty .empty 0 with
  | ok _ st =>
    refine ⟨st, rfl, (emit_breakLines (fun e he name hname => ?_) (by decide) hst).1⟩
    simpa [hname] using hnames e he
  | error _ st =>
    rw [hst] at hok
    cases hok

/-- One `break` leaves the loop, and two of the emitted ones do: that inside the `match` as well. -/
theorem Program.leavesLoop_compile :
    FunctionDecl.leavesLoop.breaks.countP (·.leaves == .loop) = 1 ∧
    (({ decls := [.function .leavesLoop] } : Program).compile {}).value.toOption.map (·.source) =
      some ("fn count(mut n: f64, done: bool) \x7b\n    while n < 1 \x7b\n        match n \x7b\n" ++
        "            1.0 => \x7b\n                if done \x7b\n                    break;\n" ++
        "                \x7d\n            \x7d\n            _ => \x7b\x7d\n        \x7d\n" ++
        "        if done \x7b\n            break;\n        \x7d\n        n = n + 1;\n    \x7d\n\x7d\n") := by
  decide +kernel

end Oxidize
