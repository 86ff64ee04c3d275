import Oxidize.Proofs.Emit.Hygiene
import Oxidize.Proofs.Grammar.Line

/-!
# What the lines of a function body are for

`FunctionDecl.outline` says of each line of a function body what it is for, in the order in which the
lines are emitted: which variable it declares, whether it opens or closes a block, and which expressions
stand in it, under which bindings. A switch has its default arms last, and the arm of a case that is
compared with a value binds a name for itself and its block.

Every variable of the body is declared by one line of the outline (`FunctionDecl.declaredBy_outline`),
and every expression of the body stands in some line (`FunctionDecl.nodes_outline`).
-/

namespace Oxidize

/-! ## Outlines -/

/-- What a line is for. The declaration of a variable comes with the name and the number of the
variable. -/
inductive LineRole where
  | plain
  | letVar (name : String) (id : BindingId)
  | opens
  | loop (name : String) (id : BindingId)
  | guard (isBlock : Bool)
  | closes
  | reopens

namespace LineRole

/-- How the line reads. Variables are declared under their written names. -/
def kind : LineRole → Source.LineKind
  | .plain => .plain
  | .letVar name _ => .letVar (Name.value name)
  | .opens => .opens
  | .loop name _ => .loop (Name.value name)
  | .guard isBlock => .guard "x" isBlock
  | .closes => .closes
  | .reopens => .reopens

/-- The variable that the line declares. -/
def declares? : LineRole → Option (String × BindingId)
  | .letVar name id | .loop name id => some (name, id)
  | _ => none

end LineRole

/-- A line of a function body. -/
structure LineNote where
  role : LineRole
  /-- The bindings for the expressions of the line. -/
  bindings : Bindings
  /-- For each guard that has the line in its scope, innermost first, the number that the next variable
  had there. -/
  guards : List BindingId
  /-- The expressions of the line. -/
  shown : List Expr

/-- The line of the pattern of a case, under the guards that scope over the body of the case. -/
def SwitchCase.patternNote (guards : List BindingId) (b : Bindings) (c : SwitchCase) : LineNote where
  role :=
    if c.value.any Expr.isCompared then .guard (!isEmptyCase c.body)
    else if isEmptyCase c.body then .plain
    else .opens
  bindings := b
  guards := guards
  shown := c.value.toList

/-- The guards over the body of a case. -/
def SwitchCase.guardsOver (guards : List BindingId) (b : Bindings) (c : SwitchCase) : List BindingId :=
  if c.value.any Expr.isCompared then b.next :: guards else guards

/-- The lines of the arm of a case, with those of its body. -/
def SwitchCase.armNotes (guards : List BindingId) (b : Bindings) (c : SwitchCase)
    (inner : Traced LineNote Bindings) : List LineNote :=
  c.patternNote (c.guardsOver guards b) b ::
    if isEmptyCase c.body then [] else inner.trace ++ [⟨.closes, inner.value.pop, guards, []⟩]

/-- The lines of all arms in the order of the emitted source, each arm given with whether it is a
default one. There is always a default arm. -/
def orderArms (guards : List BindingId) (arms : Traced (Bool × List LineNote) Bindings) :
    Traced LineNote Bindings where
  value := arms.value
  trace := (arms.trace.filter (!·.1)).flatMap (·.2) ++ ((arms.trace.filter (·.1)).flatMap (·.2) ++
    if arms.trace.any (·.1) then [] else [⟨.plain, arms.value, guards, []⟩])

mutual

/-- The lines of a statement, and the bindings after it. -/
def Stmt.outline (guards : List BindingId) (b : Bindings) : Stmt → Traced LineNote Bindings
  | .letVar _ name _ _ init => do
    .tell ⟨.letVar name b.next, b, guards, init.toList⟩
    return b.declare name
  | .assign _ target value => do
    .tell ⟨.plain, b, guards, [target, value]⟩
    return b
  | .ret _ value => do
    .tell ⟨.plain, b, guards, value.toList⟩
    return b
  | .ifElse _ cond thenBlock elseBlock => do
    .tell ⟨.opens, b, guards, [cond]⟩
    let b ← thenBlock.outline guards b
    let b ← Block.outlineElse guards b elseBlock
    .tell ⟨.closes, b, guards, []⟩
    return b
  | .whileLoop _ cond body => do
    .tell ⟨.opens, b, guards, [cond]⟩
    let b ← body.outline guards b
    .tell ⟨.closes, b, guards, []⟩
    return b
  | .forEach _ var iterable body => do
    .tell ⟨.loop var b.next, b, guards, [iterable]⟩
    let b ← body.outline guards (b.push.declare var)
    .tell ⟨.closes, b.pop, guards, []⟩
    return b.pop
  | .switch _ scrutinee cases => do
    .tell ⟨.opens, b, guards, [scrutinee]⟩
    let b ← orderArms guards (SwitchCase.outlines guards b cases)
    .tell ⟨.closes, b, guards, []⟩
    return b
  | .breakLoop _ | .continueLoop _ => do
    .tell ⟨.plain, b, guards, []⟩
    return b
  | .expr e => do
    .tell ⟨.plain, b, guards, [e]⟩
    return b
  | .block body => do
    .tell ⟨.opens, b, guards, []⟩
    let b ← body.outline guards b
    .tell ⟨.closes, b, guards, []⟩
    return b

/-- The lines of statements, and the bindings after them. -/
def Stmt.outlineList (guards : List BindingId) (b : Bindings) :
    List Stmt → Traced LineNote Bindings
  | [] => return b
  | s :: ss => do
    let b ← s.outline guards b
    Stmt.outlineList guards b ss

/-- The lines inside a block. -/
def Block.outline (guards : List BindingId) (b : Bindings) : Block → Traced LineNote Bindings
  | ⟨_, stmts⟩ => do
    let b ← Stmt.outlineList guards b.push stmts
    return b.pop

/-- The lines after the first block of a conditional. -/
def Block.outlineElse (guards : List BindingId) (b : Bindings) :
    Option Block → Traced LineNote Bindings
  | none => return b
  | some ⟨_, [.ifElse _ cond thenBlock elseBlock]⟩ => do
    .tell ⟨.reopens, b, guards, [cond]⟩
    let b ← thenBlock.outline guards b
    Block.outlineElse guards b elseBlock
  | some ⟨_, stmts⟩ => do
    .tell ⟨.reopens, b, guards, []⟩
    let b ← Stmt.outlineList guards b.push stmts
    return b.pop

/-- The lines of the arms of a switch, in the order of the cases. -/
def SwitchCase.outlines (guards : List BindingId) (b : Bindings) :
    List SwitchCase → Traced (Bool × List LineNote) Bindings
  | [] => return b
  | ⟨span, value, body, fallthrough⟩ :: cases => do
    let c : SwitchCase := ⟨span, value, body, fallthrough⟩
    let inner := Stmt.caseOutline (c.guardsOver guards b) b.push body
    .tell (value.isNone, c.armNotes guards b inner)
    SwitchCase.outlines guards inner.value.pop cases

/-- The lines of the body of a case, without a `break` at its end. -/
def Stmt.caseOutline (guards : List BindingId) (b : Bindings) :
    List Stmt → Traced LineNote Bindings
  | [] => return b
  | [.breakLoop _] => return b
  | s :: ss => do
    let b ← s.outline guards b
    Stmt.caseOutline guards b ss

end

/-- The lines of the body of a function. -/
def FunctionDecl.outline (f : FunctionDecl) : List LineNote :=
  (Stmt.outlineList [] f.signatureBindings f.body.stmts).trace

/-- The arms are put in order without losing a line, and at most a default arm without a body is
added. -/
theorem orderArms_perm (guards : List BindingId) (arms : Traced (Bool × List LineNote) Bindings) :
    (orderArms guards arms).trace.Perm (arms.trace.flatMap (·.2) ++
      if arms.trace.any (·.1) then [] else [⟨.plain, arms.value, guards, []⟩]) := by
  rw [orderArms, ← List.append_assoc, ← List.flatMap_append]
  refine (List.Perm.flatMap_right _ ?_).append_right _
  exact List.perm_append_comm.trans (List.filter_append_perm _ arms.trace)

/-- Every line of an arm is among the lines in order. -/
theorem mem_orderArms {guards : List BindingId} {arms : Traced (Bool × List LineNote) Bindings}
    {arm : Bool × List LineNote} (harm : arm ∈ arms.trace) {n : LineNote} (hn : n ∈ arm.2) :
    n ∈ (orderArms guards arms).trace :=
  (orderArms_perm guards arms).mem_iff.2
    (List.mem_append_left _ (List.mem_flatMap.2 ⟨arm, harm, hn⟩))

/-- Nothing is left of an empty case. -/
theorem Stmt.caseOutline_of_isEmptyCase {guards : List BindingId} {b : Bindings} {ss : List Stmt}
    (h : isEmptyCase ss = true) : Stmt.caseOutline guards b ss = pure b := by
  unfold isEmptyCase at h
  split at h
  · rw [Stmt.caseOutline]
  · rw [Stmt.caseOutline]
  · cases h

/-! ## Variables -/

/-- The variables that lines declare. -/
def declaredBy (notes : List LineNote) : List (String × BindingId) :=
  notes.filterMap (·.role.declares?)

/-- The variables that are new after the outlined text are declared in it, each by one line. -/
def DeclaresNew (b : Bindings) (out : Traced LineNote Bindings) : Prop :=
  ∃ names, out.value.declared = b.declared ++ names ∧
    (declaredBy out.trace).Perm (names.zipIdx b.next)

namespace DeclaresNew

variable {b : Bindings} {n : LineNote} {out : Traced LineNote Bindings}
  {f : Bindings → Traced LineNote Bindings}

/-- Where nothing is outlined, no variable is new. -/
theorem pure (b : Bindings) : DeclaresNew b (Pure.pure b) :=
  ⟨[], (List.append_nil _).symm, .nil⟩

/-- Two outlines in a row declare the new variables of both. -/
theorem bind (hout : DeclaresNew b out) (hf : DeclaresNew out.value (f out.value)) :
    DeclaresNew b (out >>= f) := by
  obtain ⟨names, hdeclared, hperm⟩ := hout
  obtain ⟨names', hdeclared', hperm'⟩ := hf
  refine ⟨names ++ names', ?_, ?_⟩
  · rw [Traced.value_bind, hdeclared', hdeclared, List.append_assoc]
  · have hcount : out.value.next = b.next + names.length := by
      rw [Bindings.next, hdeclared, List.length_append, Bindings.next]
    rw [hcount] at hperm'
    rw [declaredBy, Traced.trace_bind, List.filterMap_append, List.zipIdx_append]
    exact hperm.append hperm'

/-- A line that declares nothing. -/
theorem tell (hn : n.role.declares? = none) (hout : DeclaresNew b out) :
    DeclaresNew b (Traced.tell n >>= fun _ => out) := by
  obtain ⟨names, hdeclared, hperm⟩ := hout
  refine ⟨names, hdeclared, ?_⟩
  have htrace : declaredBy (Traced.tell n >>= fun _ => out).trace = declaredBy out.trace :=
    List.filterMap_cons_none hn
  rw [htrace]
  exact hperm

/-- A line that declares the next variable. -/
theorem declare {name : String} (hn : n.role.declares? = some (name, b.next))
    (hout : DeclaresNew (b.declare name) out) : DeclaresNew b (Traced.tell n >>= fun _ => out) := by
  obtain ⟨names, hdeclared, hperm⟩ := hout
  refine ⟨name :: names, ?_, ?_⟩
  · rw [Traced.value_bind, hdeclared, Bindings.declared_declare, List.append_assoc]
    rfl
  · have htrace : declaredBy (Traced.tell n >>= fun _ => out).trace =
        (name, b.next) :: declaredBy out.trace :=
      List.filterMap_cons_some hn
    rw [htrace, List.zipIdx_cons]
    rw [Bindings.next_declare] at hperm
    exact hperm.cons _

/-- The last line, which declares nothing. -/
theorem last (hn : n.role.declares? = none) (b : Bindings) :
    DeclaresNew b (Traced.tell n >>= fun _ => Pure.pure b) :=
  tell hn (pure b)

/-- Leaving a frame forgets no variable. -/
theorem pop (hout : DeclaresNew b out) : DeclaresNew b (out >>= fun b' => Pure.pure b'.pop) := by
  obtain ⟨names, hdeclared, hperm⟩ := hout
  refine ⟨names, hdeclared, ?_⟩
  rw [Traced.trace_bind, Traced.trace_pure, List.append_nil]
  exact hperm

end DeclaresNew

/-- Arms in order declare the variables of the arms. -/
theorem declaredBy_orderArms (guards : List BindingId)
    (arms : Traced (Bool × List LineNote) Bindings) :
    (declaredBy (orderArms guards arms).trace).Perm (declaredBy (arms.trace.flatMap (·.2))) := by
  have hlast : declaredBy (if arms.trace.any (·.1) then [] else [⟨.plain, arms.value, guards, []⟩]) =
      [] := by
    split <;> rfl
  have hperm := (orderArms_perm guards arms).filterMap (·.role.declares?)
  rwa [List.filterMap_append, ← declaredBy, ← declaredBy, ← declaredBy, hlast, List.append_nil] at hperm

/-- The lines of an arm declare what the lines of the body do. -/
theorem SwitchCase.declaredBy_armNotes (guards inside : List BindingId) (b : Bindings) (c : SwitchCase) :
    declaredBy (c.armNotes guards b (Stmt.caseOutline inside b.push c.body)) =
      declaredBy (Stmt.caseOutline inside b.push c.body).trace := by
  have hpattern : (c.patternNote (c.guardsOver guards b) b).role.declares? = none := by
    unfold patternNote
    dsimp only
    split
    · rfl
    · split <;> rfl
  rw [armNotes, declaredBy, List.filterMap_cons_none (f := fun n : LineNote => n.role.declares?) hpattern]
  cases hempty : isEmptyCase c.body with
  | true =>
    rw [Stmt.caseOutline_of_isEmptyCase hempty]
    rfl
  | false =>
    rw [if_neg Bool.false_ne_true, List.filterMap_append]
    exact List.append_nil _

mutual

/-- A statement declares its variables, each on one line. -/
theorem Stmt.outline_declaresNew (guards : List BindingId) :
    (s : Stmt) → (b : Bindings) → DeclaresNew b (s.outline guards b)
  | .letVar .., b => by
    rw [Stmt.outline]
    exact .declare rfl (.pure _)
  | .assign .., b | .ret .., b | .breakLoop _, b | .continueLoop _, b | .expr _, b => by
    rw [Stmt.outline]
    exact .last rfl b
  | .ifElse _ cond thenBlock elseBlock, b => by
    rw [Stmt.outline]
    exact .tell rfl (.bind (thenBlock.outline_declaresNew guards b)
      (.bind (Block.outlineElse_declaresNew guards elseBlock _) (.last rfl _)))
  | .whileLoop _ cond body, b => by
    rw [Stmt.outline]
    exact .tell rfl (.bind (body.outline_declaresNew guards b) (.last rfl _))
  | .forEach _ var iterable body, b => by
    rw [Stmt.outline]
    have hbody : DeclaresNew (b.declare var) (body.outline guards (b.push.declare var)) :=
      body.outline_declaresNew guards (b.push.declare var)
    refine .declare rfl (hbody.bind ?_)
    exact .tell rfl (.pure _)
  | .switch _ scrutinee cases, b => by
    rw [Stmt.outline]
    refine .tell rfl (.bind ?_ (.last rfl _))
    obtain ⟨names, hdeclared, hperm⟩ := SwitchCase.outlines_declaresNew guards cases b
    exact ⟨names, hdeclared, (declaredBy_orderArms guards _).trans hperm⟩
  | .block body, b => by
    rw [Stmt.outline]
    exact .tell rfl (.bind (body.outline_declaresNew guards b) (.last rfl _))

/-- Statements declare their variables. -/
theorem Stmt.outlineList_declaresNew (guards : List BindingId) :
    (ss : List Stmt) → (b : Bindings) → DeclaresNew b (Stmt.outlineList guards b ss)
  | [], b => by
    rw [Stmt.outlineList]
    exact .pure b
  | s :: ss, b => by
    rw [Stmt.outlineList]
    exact .bind (s.outline_declaresNew guards b) (Stmt.outlineList_declaresNew guards ss _)

/-- A block declares its variables. -/
theorem Block.outline_declaresNew (guards : List BindingId) :
    (body : Block) → (b : Bindings) → DeclaresNew b (body.outline guards b)
  | ⟨_, stmts⟩, b => by
    rw [Block.outline]
    have hstmts : DeclaresNew b (Stmt.outlineList guards b.push stmts) :=
      Stmt.outlineList_declaresNew guards stmts b.push
    exact hstmts.pop

/-- Alternatives declare their variables. -/
theorem Block.outlineElse_declaresNew (guards : List BindingId) :
    (body : Option Block) → (b : Bindings) → DeclaresNew b (Block.outlineElse guards b body)
  | none, b => by
    rw [Block.outlineElse]
    exact .pure b
  | some ⟨span, [s]⟩, b => by
    cases s with
    | ifElse _ cond thenBlock elseBlock =>
      rw [Block.outlineElse]
      exact .tell rfl (.bind (thenBlock.outline_declaresNew guards b)
        (Block.outlineElse_declaresNew guards elseBlock _))
    | _ =>
      exact .tell rfl (DeclaresNew.pop (b := b) (Stmt.outlineList_declaresNew guards _ b.push))
  | some ⟨span, []⟩, b => .tell rfl (DeclaresNew.pop (b := b) (Stmt.outlineList_declaresNew guards [] b.push))
  | some ⟨span, s :: s' :: ss⟩, b => by
    rw [Block.outlineElse]
    · exact .tell rfl
        (DeclaresNew.pop (b := b) (Stmt.outlineList_declaresNew guards (s :: s' :: ss) b.push))
    · nofun

/-- The arms of a switch declare their variables. -/
theorem SwitchCase.outlines_declaresNew (guards : List BindingId) :
    (cases : List SwitchCase) → (b : Bindings) →
      DeclaresNew b ⟨(SwitchCase.outlines guards b cases).value,
        (SwitchCase.outlines guards b cases).trace.flatMap (·.2)⟩
  | [], b => by
    rw [SwitchCase.outlines]
    exact ⟨[], (List.append_nil _).symm, .nil⟩
  | ⟨span, value, body, fallthrough⟩ :: cases, b => by
    rw [SwitchCase.outlines]
    have hbody : DeclaresNew b (Stmt.caseOutline
        (SwitchCase.guardsOver guards b ⟨span, value, body, fallthrough⟩) b.push body) :=
      Stmt.caseOutline_declaresNew _ body b.push
    obtain ⟨names, hdeclared, hperm⟩ := hbody.bind (f := fun b' =>
      ⟨(SwitchCase.outlines guards b'.pop cases).value,
        (SwitchCase.outlines guards b'.pop cases).trace.flatMap (·.2)⟩)
      (SwitchCase.outlines_declaresNew guards cases _)
    refine ⟨names, hdeclared, ?_⟩
    have harm := SwitchCase.declaredBy_armNotes guards
      (SwitchCase.guardsOver guards b ⟨span, value, body, fallthrough⟩) b
      ⟨span, value, body, fallthrough⟩
    rw [declaredBy, Traced.trace_bind, List.filterMap_append, ← declaredBy, ← harm, declaredBy,
      ← List.filterMap_append] at hperm
    exact hperm

/-- The body of a case declares its variables. -/
theorem Stmt.caseOutline_declaresNew (guards : List BindingId) :
    (ss : List Stmt) → (b : Bindings) → DeclaresNew b (Stmt.caseOutline guards b ss)
  | [], b => by
    rw [Stmt.caseOutline]
    exact .pure b
  | [s], b => by
    cases s with
    | breakLoop span => exact .pure b
    | _ => exact .bind (Stmt.outline_declaresNew guards _ b) (.pure _)
  | s :: s' :: ss, b => by
    rw [Stmt.caseOutline]
    · exact .bind (s.outline_declaresNew guards b) (Stmt.caseOutline_declaresNew guards (s' :: ss) _)
    · nofun

end

/-! ## Expressions -/

/-- The expressions of lines, with everything inside them. -/
def nodesBy (notes : List LineNote) : List Expr :=
  notes.flatMap fun n => n.shown.flatMap Expr.nodes

/-- The expressions stand in the outlined text, each in one place. -/
def ShowsAll (nodes : List Expr) (out : Traced LineNote Bindings) : Prop :=
  (nodesBy out.trace).Perm nodes

namespace ShowsAll

variable {nodes nodes' : List Expr} {n : LineNote} {out : Traced LineNote Bindings}
  {f : Bindings → Traced LineNote Bindings}

/-- No line has an expression. -/
theorem pure (b : Bindings) : ShowsAll [] (Pure.pure b) :=
  .nil

/-- The expressions stand in the one text or in the other. -/
theorem bind (hout : ShowsAll nodes out) (hf : ShowsAll nodes' (f out.value)) :
    ShowsAll (nodes ++ nodes') (out >>= f) := by
  rw [ShowsAll, nodesBy, Traced.trace_bind, List.flatMap_append]
  exact hout.append hf

/-- The expressions stand in the line or in the text after it. -/
theorem tell (hn : n.shown.flatMap Expr.nodes = nodes) (hout : ShowsAll nodes' out) :
    ShowsAll (nodes ++ nodes') (Traced.tell n >>= fun _ => out) := by
  subst hn
  exact hout.append_left _

/-- The expressions stand in the text before, and what follows has none. -/
theorem left (hout : ShowsAll nodes out) (hf : ShowsAll [] (f out.value)) :
    ShowsAll nodes (out >>= f) := by
  have h := hout.bind hf
  rwa [List.append_nil] at h

/-- The expressions stand in the text after a line without expressions. -/
theorem right (hn : n.shown = []) (hout : ShowsAll nodes out) :
    ShowsAll nodes (Traced.tell n >>= fun _ => out) :=
  tell (congrArg (List.flatMap Expr.nodes) hn) hout

/-- A last line. -/
theorem last {b : Bindings} (hn : n.shown.flatMap Expr.nodes = nodes) :
    ShowsAll nodes (Traced.tell n >>= fun _ => Pure.pure b) := by
  have h := tell hn (pure b)
  rwa [List.append_nil] at h

end ShowsAll

/-- An optional expression as the only one of a line. -/
theorem Expr.flatMap_nodes_toList (e : Option Expr) : e.toList.flatMap Expr.nodes = Expr.nodes? e := by
  cases e with
  | none => rfl
  | some e => exact List.append_nil _

/-- An expression as the only one of a line. -/
theorem Expr.flatMap_nodes_singleton (e : Expr) : [e].flatMap Expr.nodes = e.nodes :=
  List.append_nil _

/-- Nothing stands in an empty case. -/
theorem Stmt.nodesList_of_isEmptyCase {ss : List Stmt} (h : isEmptyCase ss = true) :
    Stmt.nodesList ss = [] := by
  unfold isEmptyCase at h
  split at h
  · rfl
  · rfl
  · cases h

/-- The lines of an arm show the value and the body of the case. -/
theorem SwitchCase.nodesBy_armNotes (guards inside : List BindingId) (b : Bindings) (c : SwitchCase)
    (h : ShowsAll (Stmt.nodesList c.body) (Stmt.caseOutline inside b.push c.body)) :
    (nodesBy (c.armNotes guards b (Stmt.caseOutline inside b.push c.body))).Perm
      (Expr.nodes? c.value ++ Stmt.nodesList c.body) := by
  rw [← Expr.flatMap_nodes_toList]
  refine List.Perm.append_left _ ?_
  cases hempty : isEmptyCase c.body with
  | true =>
    rw [Stmt.nodesList_of_isEmptyCase hempty]
    exact .nil
  | false =>
    rw [if_neg Bool.false_ne_true, List.map_append, List.flatten_append]
    exact (List.append_nil _).symm ▸ h

/-- Arms in order show the expressions of the arms. -/
theorem nodesBy_orderArms (guards : List BindingId) (arms : Traced (Bool × List LineNote) Bindings) :
    (nodesBy (orderArms guards arms).trace).Perm (nodesBy (arms.trace.flatMap (·.2))) := by
  have hlast : nodesBy (if arms.trace.any (·.1) then [] else [⟨.plain, arms.value, guards, []⟩]) =
      [] := by
    split <;> rfl
  have hperm := (orderArms_perm guards arms).flatMap_right fun n => n.shown.flatMap Expr.nodes
  rwa [List.flatMap_append, ← nodesBy, ← nodesBy, ← nodesBy, hlast, List.append_nil] at hperm

mutual

/-- The expressions of a statement stand in its lines. -/
theorem Stmt.nodes_outline (guards : List BindingId) :
    (s : Stmt) → (b : Bindings) → ShowsAll s.nodes (s.outline guards b)
  | .letVar _ _ _ _ init, b => by
    rw [Stmt.outline, Stmt.nodes]
    exact .last (Expr.flatMap_nodes_toList init)
  | .assign _ target value, b => by
    rw [Stmt.outline, Stmt.nodes]
    exact .last (congrArg (target.nodes ++ ·) value.flatMap_nodes_singleton)
  | .ret _ value, b => by
    rw [Stmt.outline, Stmt.nodes]
    exact .last (Expr.flatMap_nodes_toList value)
  | .ifElse _ cond thenBlock elseBlock, b => by
    rw [Stmt.outline, Stmt.nodes]
    exact .tell cond.flatMap_nodes_singleton (.bind (thenBlock.nodes_outline guards b)
      (.left (Block.nodes_outlineElse guards elseBlock _) (.last rfl)))
  | .whileLoop _ cond body, b => by
    rw [Stmt.outline, Stmt.nodes]
    exact .tell cond.flatMap_nodes_singleton (.left (body.nodes_outline guards b) (.last rfl))
  | .forEach _ var iterable body, b => by
    rw [Stmt.outline, Stmt.nodes]
    exact .tell iterable.flatMap_nodes_singleton (.left (body.nodes_outline guards _) (.last rfl))
  | .switch _ scrutinee cases, b => by
    rw [Stmt.outline, Stmt.nodes]
    refine .tell scrutinee.flatMap_nodes_singleton (.left ?_ (.last rfl))
    exact (nodesBy_orderArms guards _).trans (SwitchCase.nodes_outlines guards cases b)
  | .breakLoop _, b | .continueLoop _, b => by
    rw [Stmt.outline, Stmt.nodes]
    exact .last rfl
  | .expr e, b => by
    rw [Stmt.outline, Stmt.nodes]
    exact .last e.flatMap_nodes_singleton
  | .block body, b => by
    rw [Stmt.outline, Stmt.nodes]
    exact .right rfl (.left (body.nodes_outline guards b) (.last rfl))

/-- The expressions of statements stand in their lines. -/
theorem Stmt.nodes_outlineList (guards : List BindingId) :
    (ss : List Stmt) → (b : Bindings) →
      ShowsAll (Stmt.nodesList ss) (Stmt.outlineList guards b ss)
  | [], b => by
    rw [Stmt.outlineList, Stmt.nodesList]
    exact .pure b
  | s :: ss, b => by
    rw [Stmt.outlineList, Stmt.nodesList]
    exact .bind (s.nodes_outline guards b) (Stmt.nodes_outlineList guards ss _)

/-- The expressions of a block stand in its lines. -/
theorem Block.nodes_outline (guards : List BindingId) :
    (body : Block) → (b : Bindings) → ShowsAll body.nodes (body.outline guards b)
  | ⟨_, stmts⟩, b => by
    rw [Block.outline, Block.nodes]
    exact .left (Stmt.nodes_outlineList guards stmts b.push) (.pure _)

/-- The expressions of alternatives stand in their lines. -/
theorem Block.nodes_outlineElse (guards : List BindingId) :
    (body : Option Block) → (b : Bindings) →
      ShowsAll (Block.nodes? body) (Block.outlineElse guards b body)
  | none, b => by
    rw [Block.outlineElse, Block.nodes?]
    exact .pure b
  | some ⟨span, [s]⟩, b => by
    cases s with
    | ifElse _ cond thenBlock elseBlock =>
      rw [Block.outlineElse, Block.nodes?, Block.nodes, Stmt.nodesList, Stmt.nodesList, Stmt.nodes,
        List.append_nil]
      exact .tell cond.flatMap_nodes_singleton (.bind (thenBlock.nodes_outline guards b)
        (Block.nodes_outlineElse guards elseBlock _))
    | _ =>
      exact .right rfl (.left (Stmt.nodes_outlineList guards _ b.push) (.pure _))
  | some ⟨span, []⟩, b =>
    .right rfl (.left (Stmt.nodes_outlineList guards [] b.push) (.pure _))
  | some ⟨span, s :: s' :: ss⟩, b => by
    rw [Block.outlineElse]
    · exact .right rfl
        (.left (Stmt.nodes_outlineList guards (s :: s' :: ss) b.push) (.pure _))
    · nofun

/-- The expressions of the cases stand in the lines of the arms. -/
theorem SwitchCase.nodes_outlines (guards : List BindingId) :
    (cases : List SwitchCase) → (b : Bindings) →
      (nodesBy ((SwitchCase.outlines guards b cases).trace.flatMap (·.2))).Perm
        (SwitchCase.nodesList cases)
  | [], b => by
    rw [SwitchCase.outlines, SwitchCase.nodesList]
    exact .nil
  | ⟨span, value, body, fallthrough⟩ :: cases, b => by
    have harm := SwitchCase.nodesBy_armNotes guards _ b ⟨span, value, body, fallthrough⟩
      (Stmt.nodes_caseOutline
        (SwitchCase.guardsOver guards b ⟨span, value, body, fallthrough⟩) body b.push)
    have hrest := SwitchCase.nodes_outlines guards cases
      (Stmt.caseOutline (SwitchCase.guardsOver guards b ⟨span, value, body, fallthrough⟩)
        b.push body).value.pop
    have hboth := harm.append hrest
    rw [nodesBy, nodesBy, ← List.flatMap_append, List.append_assoc] at hboth
    rw [SwitchCase.outlines, SwitchCase.nodesList]
    exact hboth

/-- The expressions of the body of a case stand in its lines. -/
theorem Stmt.nodes_caseOutline (guards : List BindingId) :
    (ss : List Stmt) → (b : Bindings) →
      ShowsAll (Stmt.nodesList ss) (Stmt.caseOutline guards b ss)
  | [], b => by
    rw [Stmt.caseOutline, Stmt.nodesList]
    exact .pure b
  | [s], b => by
    cases s with
    | breakLoop span => exact .pure b
    | _ => exact .bind (Stmt.nodes_outline guards _ b) (.pure _)
  | s :: s' :: ss, b => by
    rw [Stmt.caseOutline]
    · exact .bind (s.nodes_outline guards b) (Stmt.nodes_caseOutline guards (s' :: ss) _)
    · nofun

end

/-! ## Functions -/

/-- Every expression of a function body stands in some line, and no others do. -/
theorem FunctionDecl.nodes_outline (f : FunctionDecl) : (nodesBy f.outline).Perm f.nodes :=
  Stmt.nodes_outlineList [] f.body.stmts f.signatureBindings

/-- The lines of a function body declare its variables, which are numbered after those of the
signature. -/
theorem FunctionDecl.declaredBy_outline (f : FunctionDecl) :
    ∃ names : List String, (declaredBy f.outline).Perm (names.zipIdx f.signatureVars.length) := by
  obtain ⟨names, -, hperm⟩ := Stmt.outlineList_declaresNew [] f.body.stmts f.signatureBindings
  refine ⟨names, ?_⟩
  rwa [Bindings.next, f.signatureBindings_walks.1, List.length_map] at hperm

end Oxidize
