import Oxidize.Compile
import Oxidize.Proofs.Emit.OutlinedLines
import Oxidize.Proofs.Emit.OutlineScopes

/-!
# Variables under the names they are written with

Every variable is declared and read under its name in snake case, so two variables of different
names may be written alike. What a written name refers to is read off the emitted lines:
`Source.lineScopes` goes through the text of a function, enters and leaves its blocks, and notes which
line or which parameter declares a name. So an occurrence refers to its own variable exactly if no later
variable in scope is written like it and no guard that came later binds its written name, and all
variables in scope are told apart exactly if no two of them are written alike and no guard hides one
(`FunctionDecl.written_lookup`). `FunctionDecl.readsOther_written` is a function where an occurrence
refers to another variable.

The scopes are those of whole lines. Names that closures bind inside an expression are not among them;
`Oxidize.Proofs.Emit.Hygiene` is about these.
-/

namespace Oxidize

open Source (Binder)

/-- Nothing hides the variable where the line stands: no later variable in scope is written like it, and
no guard that came after it binds its written name. -/
structure LineNote.Unhidden (n : LineNote) (name : String) (id : BindingId) : Prop where
  latest : ∀ other id', n.bindings.lookup? other = some id' → Name.value other = Name.value name →
    id' ≤ id
  unguarded : Name.value name = "x" → ∀ g ∈ n.guards, g ≤ id

section
variable {site : BindingId → Binder} (hsite : Function.Injective site)
  (hguard : ∀ id i, site id ≠ .guard i) {n : LineNote} {target : Scope Binder}
include hsite hguard

/-- In a scope that mirrors the bindings, a written name refers to the declaration of its variable
exactly if nothing hides the variable. -/
theorem LineNote.MirroredIn.lookup_iff (h : n.MirroredIn site target) {name : String} {id : BindingId}
    (hl : n.bindings.lookup? name = some id) :
    target.lookup? (Name.value name) = some (site id) ↔ n.Unhidden name id := by
  have hsource : ∀ x, n.bindings.scope.entries.lookup x = n.bindings.lookup? x :=
    fun x => (n.bindings.scope.lookup?_eq_entries x).symm
  rw [Scope.lookup?_eq_entries, Mirrors.lookup_iff hsite hguard h ((hsource name).trans hl)]
  simp only [hsource]
  exact ⟨fun ⟨hlatest, hguards⟩ => ⟨hlatest, hguards⟩, fun h => ⟨h.latest, h.unguarded⟩⟩

/-- In a scope that mirrors the bindings, all written names refer to the declarations of their variables
exactly if no two variables are written alike and no guard hides one. -/
theorem LineNote.MirroredIn.faithful_iff (h : n.MirroredIn site target) :
    (∀ name id, n.bindings.lookup? name = some id →
        target.lookup? (Name.value name) = some (site id)) ↔
      (∀ x y, n.bindings.isLocal x = true → n.bindings.isLocal y = true →
        Name.value x = Name.value y → x = y) ∧
      ∀ name id, n.bindings.lookup? name = some id → Name.value name = "x" →
        ∀ g ∈ n.guards, g ≤ id := by
  have hall := Mirrors.faithful_iff hsite hguard h
  simp only [← Scope.lookup?_eq_entries] at hall
  exact hall

end

/-- The names of variables that an expression of a line writes occur in the line. -/
theorem LineNote.Describes.within {cx : FnContext} {n : LineNote} {text : String}
    (h : n.Describes cx text) {e : Expr} (he : e ∈ n.shown) {name : String}
    (hname : e.Writes cx n.bindings name) : Within (Name.value name) text := by
  obtain ⟨pos, before, code, read, hrun, hcode⟩ := h.shows e he
  exact (hname.within hrun).trans hcode

/-- The text and the scope of a line, put together. -/
theorem forall₂_zip {α β γ : Type} {R : α → β → Prop} {S : α → γ → Prop} {as : List α} {bs : List β}
    {cs : List γ} (hb : List.Forall₂ R as bs) (hc : List.Forall₂ S as cs) :
    List.Forall₂ (fun a (b, c) => R a b ∧ S a c) as (bs.zip cs) := by
  induction hb generalizing cs with
  | nil =>
    cases hc
    exact .nil
  | cons hab _ ih =>
    cases hc with
    | cons hac hc => exact .cons ⟨hab, hac⟩ (ih hc)

/-- Lines read as the notes on them say. -/
theorem map_lineKind_of_describes {cx : FnContext} {notes : List LineNote} {lines : List String}
    (h : List.Forall₂ (LineNote.Describes cx) notes lines) :
    lines.map Source.lineKind = notes.map (·.role.kind) := by
  induction h with
  | nil => rfl
  | cons hn _ ih => rw [List.map_cons, List.map_cons, hn.reads, ih]

/-- Parameters are declared in the text as they are in the bindings, each with its position as its
number. -/
theorem mirrored_parameters {site : BindingId → Binder} {vars : List (String × Ty)}
    {texts : List String}
    (h : List.Forall₂ (fun v text => Source.parameterName text = Name.value v.1) vars texts)
    {b : Bindings} {target : Scope Binder} (hb : Mirrored site [] b target)
    (hsite : ∀ id < b.next + vars.length, site id = .parameter id) :
    Mirrored site [] (vars.foldl (fun b v => b.declare v.1) b)
      ((texts.zipIdx b.next).foldl
        (fun s (text, i) => s.declare (Source.parameterName text) (.parameter i)) target) := by
  induction h generalizing b target with
  | nil => exact hb
  | @cons v text vars texts hv _ ih =>
    rw [List.length_cons] at hsite
    have hdeclared : Mirrored site [] (b.declare v.1)
        (target.declare (Source.parameterName text) (.parameter b.next)) := by
      rw [hv]
      exact hb.declare (hsite b.next (Nat.lt_add_of_pos_right (Nat.succ_pos _)))
    have hrest := ih hdeclared fun id hid => by
      rw [Bindings.next_declare, Nat.add_assoc, Nat.add_comm 1] at hid
      exact hsite id hid
    rwa [Bindings.next_declare] at hrest

namespace FunctionDecl

variable {f : FunctionDecl}

/-- Whether the names in a function are identifiers in the emitted source: those of its variables and
those in its expressions. -/
def isNamed (f : FunctionDecl) : Bool :=
  f.signatureVars.all (Name.isIdentifier ·.1) && (declaredBy f.outline).all (Name.isIdentifier ·.1) &&
    f.nodes.all Expr.isNamed

/-- What the check of names asks for. -/
theorem isNamed_iff : f.isNamed = true ↔
    (∀ v ∈ f.signatureVars, Name.isIdentifier v.1 = true) ∧ NamedLines f.outline := by
  have hnodes : (∀ e ∈ f.nodes, e.isNamed = true) ↔ ∀ e ∈ nodesBy f.outline, e.isNamed = true :=
    forall_congr' fun e => by rw [f.nodes_outline.mem_iff]
  rw [isNamed, Bool.and_eq_true, Bool.and_eq_true, List.all_eq_true, List.all_eq_true,
    List.all_eq_true, and_assoc, hnodes]
  refine and_congr_right' ⟨fun ⟨hdeclared, hshown⟩ n hn => ⟨fun v hv => ?_, fun e he e' he' => ?_⟩,
    fun h => ⟨fun v hv => ?_, fun e' he' => ?_⟩⟩
  · exact hdeclared v (List.mem_filterMap.2 ⟨n, hn, hv⟩)
  · exact hshown e' (List.mem_flatMap.2 ⟨n, hn, List.mem_flatMap.2 ⟨e, he, he'⟩⟩)
  · obtain ⟨n, hn, hv⟩ := List.mem_filterMap.1 hv
    exact (h n hn).declared v hv
  · obtain ⟨n, hn, he'⟩ := List.mem_flatMap.1 he'
    obtain ⟨e, he, he'⟩ := List.mem_flatMap.1 he'
    exact (h n hn).shown e he e' he'

/-- Read from its text, each parameter has the written name of its variable. -/
theorem parameterName_paramTexts (h : ∀ v ∈ f.signatureVars, Name.isIdentifier v.1 = true)
    (usage : UsageReport) :
    List.Forall₂ (fun v text => Source.parameterName text = Name.value v.1) f.signatureVars
      (f.paramTexts usage) := by
  have hparams : ∀ (params : List Param) (n : Nat),
      (∀ p ∈ params, Name.isIdentifier p.name = true) →
      List.Forall₂ (fun v text => Source.parameterName text = Name.value v.1)
        (params.map fun p => (p.name, p.ty))
        ((params.zipIdx n).map fun pair => paramText usage pair.1 pair.2) := by
    intro params
    induction params with
    | nil => exact fun _ _ => .nil
    | cons p params ih =>
      intro n hp
      refine .cons ?_ (ih (n + 1) fun q hq => hp q (.tail _ hq))
      have hname := Source.parameterName_mutText (Name.isNameText_value (hp p (.head _)))
        (p.mutable || usage.needsMut n) (": " ++ p.ty.text .loc) (by simp [Source.startsApart]; decide)
      rwa [← String.append_assoc] at hname
  refine List.rel_append ?_ (hparams f.params _ fun p hp => ?_)
  · cases f.receiver with
    | none => exact .nil
    | some receiver =>
      refine .cons ?_ .nil
      have hself : Name.value receiverName = "self" := rfl
      rw [hself]
      cases receiver with
      | byRef => exact (by decide : Source.parameterName "&self" = "self")
      | byMut => exact (by decide : Source.parameterName "&mut self" = "self")
      | byValue =>
        have htext : Source.IsNameText "self" := .of_isNameText (by decide)
        have hname := Source.parameterName_mutText htext (usage.needsMut 0) "" (by decide)
        rwa [String.append_empty] at hname
  · exact h (p.name, p.ty) (List.mem_append_right _ (List.mem_map.2 ⟨p, hp, rfl⟩))

/-! ## Declarations -/

/-- What declares a variable in the emitted source: a line of the body, or else a parameter. -/
def binder (f : FunctionDecl) (id : BindingId) : Binder :=
  match f.outline.findIdx? (·.role.declares?.any (·.2 == id)) with
  | some i => .line i
  | none => .parameter id

/-- Different variables have different declarations. -/
theorem binder_injective : Function.Injective f.binder := by
  intro id id' heq
  unfold binder at heq
  split at heq
  · next i hi =>
    split at heq
    · next j hj =>
      cases heq
      obtain ⟨hlt, hid, -⟩ := List.findIdx?_eq_some_iff_getElem.1 hi
      obtain ⟨_, hid', -⟩ := List.findIdx?_eq_some_iff_getElem.1 hj
      obtain ⟨v, hv, hvid⟩ := (Option.any_eq_true _ _).1 hid
      obtain ⟨w, hw, hwid⟩ := (Option.any_eq_true _ _).1 hid'
      cases hv.symm.trans hw
      exact (eq_of_beq hvid).symm.trans (eq_of_beq hwid)
    · cases heq
  · split at heq
    · cases heq
    · cases heq
      rfl

/-- No variable is declared by a guard. -/
theorem binder_ne_guard (id : BindingId) (i : Nat) : f.binder id ≠ .guard i := by
  unfold binder
  split <;> nofun

/-- The variables of the signature are declared by the parameters. -/
theorem binder_of_lt {id : BindingId} (h : id < f.signatureVars.length) :
    f.binder id = .parameter id := by
  have hnone : f.outline.findIdx? (·.role.declares?.any (·.2 == id)) = none := by
    refine List.findIdx?_eq_none_iff.2 fun n hn => Bool.eq_false_iff.2 fun hany => ?_
    obtain ⟨v, hv, hid⟩ := (Option.any_eq_true _ _).1 hany
    obtain ⟨names, hperm⟩ := f.declaredBy_outline
    have hmem := hperm.mem_iff.1 (List.mem_filterMap.2 ⟨n, hn, hv⟩)
    have hle : f.signatureVars.length ≤ v.2 := List.le_snd_of_mem_zipIdx hmem
    rw [eq_of_beq hid] at hle
    exact Nat.not_le_of_lt h hle
  rw [binder, hnone]

/-- The variables of the body are declared by their lines. -/
theorem sites_binder (f : FunctionDecl) : Sites f.binder 0 f.outline := by
  obtain ⟨names, hperm⟩ := f.declaredBy_outline
  have hnodup : (declaredBy f.outline).Pairwise fun v w => v.2 ≠ w.2 := by
    have hids := (hperm.map Prod.snd).nodup_iff.2
      (by rw [List.zipIdx_map_snd]; exact List.nodup_range')
    exact List.pairwise_map.1 hids
  rw [declaredBy, List.pairwise_filterMap, List.pairwise_iff_getElem] at hnodup
  intro i n v hn hv
  obtain ⟨hlt, hget⟩ := List.getElem?_eq_some_iff.1 hn
  have hfound : f.outline.findIdx? (·.role.declares?.any (·.2 == v.2)) = some i := by
    refine List.findIdx?_eq_some_iff_getElem.2 ⟨hlt, ?_, fun j hj hany => ?_⟩
    · rw [hget, hv]
      exact beq_self_eq_true v.2
    · obtain ⟨w, hw, hid⟩ := (Option.any_eq_true _ _).1 hany
      exact hnodup j i _ hlt hj w hw v (hget ▸ hv) (eq_of_beq hid)
  rw [binder, hfound, Nat.zero_add]

/-- The scope of each line of the body, read from the text, mirrors the bindings of the line. -/
theorem mirroredIn_lineScopes (h : ∀ v ∈ f.signatureVars, Name.isIdentifier v.1 = true)
    {cx : FnContext} {lines : List String}
    (hlines : List.Forall₂ (LineNote.Describes cx) f.outline lines) (usage : UsageReport) :
    List.Forall₂ (LineNote.MirroredIn f.binder) f.outline
      (Source.lineScopes (f.paramTexts usage) lines) := by
  have hstart : Mirrored f.binder [] f.signatureBindings
      (Source.parameterScope (f.paramTexts usage)) := by
    refine mirrored_parameters (parameterName_paramTexts h usage) (b := .empty) .nil fun id hid => ?_
    rw [show Bindings.empty.next = 0 from rfl, Nat.zero_add] at hid
    exact binder_of_lt hid
  obtain ⟨_, hwalk, -⟩ := (Stmt.outlineList_tracks f.binder [] f.body.stmts f.signatureBindings).walks
    _ 0 hstart f.sites_binder
  rw [Source.lineScopes, map_lineKind_of_describes hlines]
  exact hwalk.forall₂

/-- The lines of a function read as its outline says, between the first line and the last one. -/
theorem emit_outline (h : NamedLines f.outline) {r : Registry} {copy : CopySet} {indent : Nat}
    {st : Emission} (hrun : f.emit r copy indent = .ok () st) :
    ∃ lines level, st.lines = (indentation indent ++ f.headText (f.context r copy)) ::
        (lines ++ [indentation level ++ "\x7d"]) ∧
      List.Forall₂ (LineNote.Describes (f.context r copy)) f.outline lines := by
  obtain ⟨_, st₁, hhead, hrun⟩ := Emitting.exists_of_run_bind hrun
  cases hhead
  obtain ⟨_, st₂, hbody, hrun⟩ := Emitting.exists_of_run_bind hrun
  cases hrun
  obtain ⟨lines, hlines, -, hdescribes⟩ :=
    Emitting.Appends.indented (Stmt.emitBody_outlines h) _ _ _ hbody rfl
  refine ⟨lines, st₂.indent, ?_, hdescribes⟩
  change st₂.lines ++ [indentation st₂.indent ++ "\x7d"] = _
  rw [hlines]
  rfl

/-- A function that reads a variable after another one was declared that is written alike. -/
def readsOther : FunctionDecl :=
  let one := Expr.ofKind (.literal (.number ⟨0x3ff0000000000000⟩))
  let two := Expr.ofKind (.literal (.number ⟨0x4000000000000000⟩))
  ⟨.zero, "first", [], .f64, .ofStmts [
    .letVar .zero "userId" (some .f64) false (some one),
    .letVar .zero "user_id" (some .f64) false (some two),
    .ret .zero (some (.ofKind (.ident "userId")))], false, none⟩

/-- The lines of the body of `readsOther`. -/
def readsOtherLines : List String :=
  ["    let user_id: f64 = 1;", "    let user_id: f64 = 2;", "    user_id"]

end FunctionDecl

end Oxidize
