import Oxidize.Proofs.Emit.Follow

/-!
# The countdown of reads

A variable that needs duplication is cloned by every read in value position except its last one.
Which read is the last is decided while the reads are written, from the count of the usage report
and the reads written so far. `FunctionDecl.emit_countdown` says that this is the last read indeed:
emission writes the reads that were counted, in their order and positions, so the countdown never
drops below zero, and it ends at zero unless data of a variant was dropped.
-/

namespace Oxidize

open Emitting (line indented)

section
variable {cx : FnContext} {P : Prop} {b : Bindings} {r : Option Registry}

/-! ## Function bodies -/

/-- The last statement of a body reads the same, however it is written. -/
theorem Stmt.emitTail_follows (s : Stmt) (hP : P → NoneOverfull cx.registry s.nodes) :
    Follows cx P b (s.emitTail cx) (s.usage r b) := by
  unfold Stmt.emitTail
  split
  · rw [Stmt.nodes] at hP
    rw [Stmt.usage, Expr.usage?]
    exact .read (emitValue_reads _ hP _) fun _ => .silent (.line _)
  · next e =>
    refine .silent_bind (.bind .get fun _ => .pure _) fun _ => ?_
    split
    · exact Stmt.emit_follows _ hP b
    · rw [Stmt.nodes] at hP
      rw [Stmt.usage]
      exact .read (emitValue_reads _ hP _) fun _ => .silent (.line _)
  · exact Stmt.emit_follows _ hP b

/-- Emitting the body of a function follows the walk over it, whether or not its end is an
expression. -/
theorem Stmt.emitBody_follows (ss : List Stmt)
    (hP : P → NoneOverfull cx.registry (Stmt.nodesList ss)) :
    Follows cx P b (Stmt.emitBody cx ss) (Stmt.usageList r b ss) := by
  induction ss generalizing b with
  | nil => exact .silent (.pure _)
  | cons s ss ih =>
    rw [Stmt.nodesList] at hP
    have hs : P → NoneOverfull cx.registry s.nodes := fun hp => (hP hp).left
    cases ss with
    | nil =>
      rw [Stmt.emitBody, Stmt.usageList_singleton]
      split
      · exact s.emit_follows hs b
      · exact s.emitTail_follows hs
    | cons s' ss =>
      rw [Stmt.emitBody, Stmt.usageList]
      · exact .bind (s.emit_follows hs b) fun _ => ih fun hp => (hP hp).right
      · nofun

/-- Emitting the lines of a function follows the walk over its body. -/
theorem FunctionDecl.emitLines_follows (f : FunctionDecl)
    (hP : P → NoneOverfull cx.registry f.nodes) :
    Follows cx P b (f.emitLines cx) (Stmt.usageList r b f.body.stmts) :=
  .silent_bind (.line _) fun _ =>
    .bind_silent (.indented (Stmt.emitBody_follows f.body.stmts hP)) fun _ => .line _

/-! ## The countdown -/

/-- Each read of a sequence is cloned as the countdown says at its place. -/
theorem FnContext.Flagged.split {written before after : List Read} {rd : Read}
    (h : cx.Flagged written (before ++ rd :: after)) :
    ∃ u, cx.usage.bindings[rd.id]? = some u ∧
      rd.cloned = (rd.pos == .value && cx.usage.needsDuplication.contains rd.id &&
        decide (0 < u.reads - ((written ++ before).countP (·.id == rd.id) + 1))) :=
  ((cx.flagged_append ..).1 h).2.1

end

/-- The reads of a variable are counted by their keys. -/
theorem countP_key (id : BindingId) (reads : List Read) :
    (reads.map Read.key).countP (·.1 == id) = reads.countP (·.id == id) := by
  rw [List.countP_map]
  rfl

/-- The reads of the variable of one read are those before it, itself and those after it. -/
theorem countP_split (before after : List Read) (rd : Read) :
    (before ++ rd :: after).countP (·.id == rd.id) =
      before.countP (·.id == rd.id) + 1 + after.countP (·.id == rd.id) := by
  rw [List.countP_append, List.countP_cons_of_pos (by simp)]
  omega

/-- What the emission of a function leaves behind, in terms of the walk over it. -/
theorem FunctionDecl.emit_appends {r : Registry} {copy : CopySet} {indent : Nat} {f : FunctionDecl}
    {st : Emission} (h : f.emit r copy indent = .ok () st) (P : Prop)
    (hP : P → NoneOverfull r f.nodes) :
    st.bindings.declared = (f.usage copy).bindings.map (·.name) ∧
      Appends (f.context r copy) P [] st.reads (f.usageEvents copy.registry) := by
  have hwalk := Stmt.usageList_walks copy.registry f.body.stmts f.signatureBindings
  have hcount : (f.context r copy).Counts
      (Stmt.usageList copy.registry f.signatureBindings f.body.stmts).trace := by
    intro k hk
    have hlt := hwalk.reads f.signatureBindings_walks.2 k hk
    rw [Bindings.next, ← map_name_usage, List.length_map] at hlt
    exact hlt
  have hfollow : Follows (f.context r copy) P f.signatureBindings (f.emitLines _)
      (Stmt.usageList copy.registry f.signatureBindings f.body.stmts) := f.emitLines_follows hP
  obtain ⟨-, hag, new, hnew, hsub, hall, hflag⟩ := hfollow _ _ _ h (.refl _) hcount
  rw [← readsIn_usageEvents] at hsub hall
  exact ⟨hag.declared.trans (f.map_name_usage copy).symm, new, hnew, hsub, hall, hflag⟩

/-- The reads that the emission of a function writes are reads of its usage walk, in order and with
the same numbers and positions, and they are all of them unless a variant with named fields carries
more data than fields. So the count of a variable is never used up before its last read, and where
nothing was dropped a read in value position is cloned exactly if its variable needs duplication
and is read again later. -/
theorem FunctionDecl.emit_countdown (r : Registry) (copy : CopySet) (indent : Nat)
    (f : FunctionDecl) (st : Emission) (h : f.emit r copy indent = .ok () st) :
    let usage := f.usage copy
    let walked := readsIn (f.usageEvents copy.registry)
    let written := st.reads.map Read.key
    st.bindings.declared = usage.bindings.map (·.name) ∧
    written.Sublist walked ∧
    ((∀ e ∈ f.nodes, e.isOverfull r = false) → written = walked) ∧
    (∀ before rd after, st.reads = before ++ rd :: after →
      ∃ u, usage.bindings[rd.id]? = some u ∧ before.countP (·.id == rd.id) + 1 ≤ u.reads) ∧
    (∀ rd ∈ st.reads, rd.pos = .borrow → rd.cloned = false) ∧
    (written = walked →
      (∀ id u, usage.bindings[id]? = some u → st.reads.countP (·.id == id) = u.reads) ∧
      ∀ before rd after, st.reads = before ++ rd :: after → rd.pos = .value →
        (rd.cloned = true ↔
          rd.id ∈ usage.needsDuplication ∧ ∃ later ∈ after, later.id = rd.id)) ∧
    ∀ b name pos reads, ∃ text reads',
      (readVar (f.context r copy) b name pos).run reads = .ok (text, reads') ∧
      ((reads' = reads ∧ text = Name.value name) ∨
        ∃ rd, reads' = reads ++ [rd] ∧ b.lookup? name = some rd.id ∧ rd.pos = pos ∧
          text = if rd.cloned then Name.value name ++ ".clone()" else Name.value name) := by
  intro usage walked written
  obtain ⟨hnames, new, hnew, hsub, hall, hflag⟩ := emit_appends h (NoneOverfull r f.nodes) id
  obtain rfl : st.reads = new := by simpa using hnew
  have hcount : ∀ id u, usage.bindings[id]? = some u → st.reads.countP (·.id == id) ≤ u.reads := by
    intro id u hu
    rw [reads_of_usage hu, ← countP_key]
    exact hsub.countP_le
  have hsplit : ∀ before rd after, st.reads = before ++ rd :: after → ∃ u,
      usage.bindings[rd.id]? = some u ∧ rd.cloned = (rd.pos == .value &&
        usage.needsDuplication.contains rd.id &&
          decide (0 < u.reads - (before.countP (·.id == rd.id) + 1))) := by
    intro before rd after hreads
    rw [hreads] at hflag
    exact hflag.split
  refine ⟨hnames, hsub, hall, fun before rd after hreads => ?_, fun rd hrd hpos => ?_,
    fun heq => ⟨fun id u hu => ?_, fun before rd after hreads hpos => ?_⟩,
    readVar_text (f.context r copy)⟩
  · obtain ⟨u, hu, -⟩ := hsplit before rd after hreads
    have hle := hcount rd.id u hu
    rw [hreads, countP_split] at hle
    exact ⟨u, hu, by omega⟩
  · obtain ⟨before, after, hreads⟩ := List.append_of_mem hrd
    obtain ⟨u, -, hcloned⟩ := hsplit before rd after hreads
    rw [hcloned, hpos]
    rfl
  · rw [reads_of_usage hu, ← countP_key]
    exact congrArg (List.countP (·.1 == id)) heq
  · obtain ⟨u, hu, hcloned⟩ := hsplit before rd after hreads
    have htotal : u.reads = st.reads.countP (·.id == rd.id) := by
      rw [reads_of_usage hu, ← countP_key]
      exact congrArg (List.countP (·.1 == rd.id)) heq.symm
    have hlater : 0 < u.reads - (before.countP (·.id == rd.id) + 1) ↔
        ∃ later ∈ after, later.id = rd.id := by
      rw [htotal, hreads, countP_split, Nat.add_sub_cancel_left, List.countP_pos_iff]
      simp
    rw [hcloned, hpos, ← hlater]
    simp

/-- `if (b) else if (b) f(x); let x = x; f(x, x)`, where `x` owns its value. -/
def FunctionDecl.readsAcrossChain : FunctionDecl :=
  let x := Expr.ofKind (.ident "x")
  let b := Expr.ofKind (.ident "b")
  let chained := Stmt.ifElse .zero b (.ofStmts [.expr (.ofKind (.call "f" [x]))]) none
  ⟨.zero, "g", [⟨"x", .ownedText, false⟩, ⟨"b", .bool, false⟩], .void, .ofStmts
    [.ifElse .zero b (.ofStmts []) (some (.ofStmts [chained])),
      .letVar .zero "x" (some .ownedText) false (some x),
      .expr (.ofKind (.call "f" [x, x]))], false, none⟩

/-- The parameter `x` is cloned before its last read, and so is the variable that hides it. -/
theorem FunctionDecl.emit_countdown_chain :
    ∃ st, readsAcrossChain.emit .empty .empty 0 = .ok () st ∧
      st.reads.map Read.key = readsIn (readsAcrossChain.usageEvents none) ∧
      st.reads = [⟨1, .borrow, false⟩, ⟨1, .borrow, false⟩, ⟨0, .value, true⟩, ⟨0, .value, false⟩,
        ⟨2, .value, true⟩, ⟨2, .value, false⟩] := by
  have hrun : (EStateM.Result.casesOn (motive := fun _ => Bool)
      (readsAcrossChain.emit .empty .empty 0)
      (fun _ st => decide (st.reads = [⟨1, .borrow, false⟩, ⟨1, .borrow, false⟩,
        ⟨0, .value, true⟩, ⟨0, .value, false⟩, ⟨2, .value, true⟩, ⟨2, .value, false⟩]))
      fun _ _ => false) = true := by decide +kernel
  cases hst : readsAcrossChain.emit .empty .empty 0 with
  | ok _ st =>
    rw [hst] at hrun
    exact ⟨st, rfl, (emit_countdown .empty .empty 0 readsAcrossChain st hst).2.2.1 (by decide),
      of_decide_eq_true hrun⟩
  | error _ st =>
    rw [hst] at hrun
    cases hrun

end Oxidize
