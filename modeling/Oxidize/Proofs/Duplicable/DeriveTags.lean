import Oxidize.Emit.Program
import Oxidize.Proofs.Duplicable.Composition

/-!
# The derive tags from the closure to the source

The set of duplicable names is kept in four places: the set that the passes of the closure grow, the
tags they add, the set that emission rebuilds from the tags, and the derive attributes it writes.
`Program.copyClosure_derives` says that all four are the same set, whatever tags the declarations
started with, and that nothing but tags changes.

Adding tags, by the closure as by emission, is one fold (`foldl_addTag`): behind the tags that are
there come the others, in the order in which they are first met.
-/

namespace Oxidize

/-! ## Tags added one by one -/

/-- Nothing is left twice when repetitions are dropped. -/
theorem nodup_eraseDups {α : Type} [DecidableEq α] (l : List α) : l.eraseDups.Nodup := by
  match l with
  | [] => exact List.nodup_nil
  | a :: l =>
    rw [List.eraseDups_cons]
    refine List.nodup_cons.2 ⟨fun h => ?_, nodup_eraseDups _⟩
    simpa using List.mem_filter.1 (List.mem_eraseDups.1 h)
termination_by l.length
decreasing_by exact Nat.lt_succ_of_le (List.length_filter_le _ _)

/-- Adding tags one by one appends those that are new, each once. -/
theorem foldl_addTag (all tags : List String) :
    tags.foldl (fun all tag => if all.contains tag then all else all ++ [tag]) all =
      all ++ (tags.removeAll all).eraseDups := by
  induction tags generalizing all with
  | nil => simp [List.removeAll]
  | cons tag tags ih =>
    rw [List.foldl_cons, ih]
    by_cases h : tag ∈ all
    · simp [List.removeAll, h]
    · -- A tag that was added is left out of what follows, as a later occurrence of it is.
      have hrest : tags.removeAll (all ++ [tag]) =
          (tags.removeAll all).filter fun other => !other == tag := by
        simp only [List.removeAll, List.filter_filter, List.elem_eq_mem, List.mem_append,
          List.mem_singleton]
        refine List.filter_congr fun other _ => ?_
        grind
      have hcons : (tag :: tags).removeAll all = tag :: tags.removeAll all := by
        simp [List.removeAll, h]
      rw [if_neg (by simpa using h), hrest, hcons, List.eraseDups_cons, List.append_assoc]
      rfl

/-- The tags of duplicable declarations that are missing from a list. -/
def missingCopyTags (derives : List String) : List String :=
  ["Clone", "Copy"].filter (!derives.contains ·)

/-- The tags that duplication asks for are appended if they are missing. -/
theorem addCopyTags_eq (derives : List String) :
    addCopyTags derives = derives ++ missingCopyTags derives := by
  rw [addCopyTags, foldl_addTag, missingCopyTags, List.removeAll, copyTag]
  congr 1
  by_cases hclone : "Clone" ∈ derives <;> by_cases hcopy : "Copy" ∈ derives <;>
    simp [hclone, hcopy, List.eraseDups_cons]

/-- What a declaration with the given tags is emitted with: three tags that all have, and then its
others in the order in which they first occur. -/
structure EmittedTags (carried emitted : List String) : Prop where
  emitted_eq : emitted = ["Debug", "Clone", "PartialEq"] ++
    (carried.filter fun tag => !List.contains ["Debug", "Clone", "PartialEq"] tag).eraseDups
  nodup : emitted.Nodup
  copy : ["Clone", "Copy"].Sublist emitted ↔ "Copy" ∈ carried

/-- The tags that are emitted are the usual ones and then those of the declaration that are new. -/
theorem allDerives_eq (tags : List String) :
    allDerives tags = baseDerives ++ (tags.removeAll baseDerives).eraseDups :=
  foldl_addTag baseDerives tags

/-- The emitted tags are as the specification of them says. -/
theorem allDerives_emitted (tags : List String) : EmittedTags tags (allDerives tags) where
  emitted_eq := allDerives_eq tags
  nodup := by
    have hdisjoint : baseDerives.Disjoint (tags.removeAll baseDerives).eraseDups := by
      intro tag hbase hrest
      simp [List.removeAll, hbase] at hrest
    rw [allDerives_eq]
    exact List.nodup_append'.2 ⟨by decide, nodup_eraseDups _, hdisjoint⟩
  copy := by
    have hcopy : "Copy" ∈ (tags.removeAll baseDerives).eraseDups ↔ "Copy" ∈ tags := by
      simp [List.removeAll, baseDerives]
    rw [allDerives_eq, ← hcopy]
    constructor
    · intro h
      have hmem := h.subset (List.mem_cons_of_mem _ List.mem_cons_self)
      exact (List.mem_append.1 hmem).resolve_left (by decide)
    · intro h
      have hclone : ["Clone"].Sublist baseDerives := by decide
      exact hclone.append (List.singleton_sublist.2 h)

example : allDerives ["Hash", "Copy", "Debug", "Hash"] =
    ["Debug", "Clone", "PartialEq", "Hash", "Copy"] := by decide

/-! ## What a run of the closure does to declarations -/

/-- The declaration is as it was, or has the tags that were missing behind its own. -/
inductive Decl.Retagged : Decl → Decl → Prop where
  | same (d : Decl) : d.Retagged d
  | struct (s : StructDecl) :
    Retagged (.struct s) (.struct { s with derives := s.derives ++ missingCopyTags s.derives })
  | enum (e : EnumDecl) :
    Retagged (.enum e) (.enum { e with derives := e.derives ++ missingCopyTags e.derives })

namespace Decl

/-- A declaration is retagged by leaving it as it is or by adding the tags of duplication. -/
theorem retagged_iff {d d' : Decl} : d.Retagged d' ↔ d' = d ∨ d' = d.withCopyTags := by
  constructor
  · rintro (_ | s | e)
    · exact .inl rfl
    · exact .inr (by rw [withCopyTags, addCopyTags_eq])
    · exact .inr (by rw [withCopyTags, addCopyTags_eq])
  · rintro (rfl | rfl)
    · exact .same _
    · cases d with
      | struct s => rw [withCopyTags, addCopyTags_eq]; exact .struct s
      | enum e => rw [withCopyTags, addCopyTags_eq]; exact .enum e
      | _ => exact .same _

/-- Adding the tags of duplication retags a declaration. -/
theorem retagged_withCopyTags (d : Decl) : d.Retagged d.withCopyTags :=
  retagged_iff.2 (.inr rfl)

/-- Tags added once are not added again. -/
theorem Retagged.trans {a b c : Decl} (hab : a.Retagged b) (hbc : b.Retagged c) : a.Retagged c := by
  rw [retagged_iff] at *
  rcases hab with rfl | rfl
  · exact hbc
  · exact .inr (by simpa using hbc)

end Decl

/-- Declarations of which some are retagged. -/
def Retagged (ds ds' : List Decl) : Prop :=
  List.Forall₂ Decl.Retagged ds ds'

/-- What is retagged twice is retagged. -/
theorem Retagged.trans {a b c : List Decl} (hab : Retagged a b) (hbc : Retagged b c) :
    Retagged a c := by
  unfold Retagged at *
  induction hab generalizing c with
  | nil => exact hbc
  | cons h _ ih =>
    cases hbc with
    | cons h' htail => exact .cons (h.trans h') (ih htail)

namespace ClosureState

/-- The start of the closure retags the seeds. -/
theorem start_retagged (p : Program) : Retagged p.decls (start p).decls := by
  refine List.forall₂_map_right_iff.2 (List.forall₂_same.2 fun d _ => ?_)
  split
  · exact d.retagged_withCopyTags
  · exact .same d

/-- A pass retags what it promotes. -/
theorem passOver_retagged (pass : Nat) (set : CopySet) (ds : List Decl) :
    Retagged ds (passOver pass set ds).value.decls := by
  induction ds generalizing set with
  | nil => exact .nil
  | cons d ds ih =>
    rw [passOver]
    split
    · exact .cons d.retagged_withCopyTags (ih _)
    · exact .cons (.same d) (ih _)

/-- All passes together retag declarations. -/
theorem settle_retagged (left done : Nat) (s : ClosureState) :
    Retagged s.decls (settle left done s).value.1.decls := by
  induction left generalizing done s with
  | zero => exact List.forall₂_same.2 fun d _ => .same d
  | succ left ih =>
    have hpass := passOver_retagged (done + 1) s.set s.decls
    rw [settle, Traced.value_bind]
    split
    · exact hpass
    · exact hpass.trans (ih _ _)

end ClosureState

/-! ## The names that carry the tag -/

namespace Program

/-- The name of an aggregate or an enum that carries the tag. -/
def CarriesCopy (p : Program) (name : String) : Prop :=
  (∃ s ∈ p.structs, "Copy" ∈ s.derives ∧ s.name = name) ∨
    ∃ e ∈ p.enums, "Copy" ∈ e.derives ∧ e.name = name

/-- The set of a program has the names of declarations that carry the tag. -/
theorem mem_copySet_ofProgram {p : Program} {r : Registry} {name : String} :
    name ∈ (CopySet.ofProgram p r).names ↔ p.CarriesCopy name := by
  simp only [CopySet.ofProgram, CopySet.mem_foldl_insert, CopySet.ofRegistry, List.not_mem_nil,
    or_false, List.mem_append, List.mem_map, List.mem_filter, StructDecl.hasCopy, EnumDecl.hasCopy,
    List.contains_iff_mem, copyTag, CarriesCopy, and_assoc]

/-- After a run a declaration that would be duplicable from the start carries the tag, an enum
without data too. -/
theorem isSeed_tagged_iff {p : Program} {cap : Nat} {name : String} :
    (p.tagged cap).IsSeed name ↔ (p.tagged cap).CarriesCopy name := by
  have htags : ∀ e ∈ (p.tagged cap).enums, e.isFieldless = true → "Copy" ∈ e.derives := by
    intro e he hfieldless
    obtain ⟨d, hd, henum⟩ := List.mem_filterMap.1 he
    cases d with
    | enum e' =>
      cases henum
      have hsame : (Decl.enum e).withCopyTags = .enum e :=
        (p.closureEnd_tagged cap).tags _ hd (by simp [Decl.seed?, hfieldless])
      have hderives : addCopyTags e.derives = e.derives :=
        congrArg EnumDecl.derives (Decl.enum.inj hsame)
      exact hderives ▸ mem_addCopyTags.2 (.inr (.inl rfl))
    | _ => cases henum
  simp only [IsSeed, CarriesCopy, StructDecl.hasCopy, EnumDecl.hasCopy, List.contains_iff_mem,
    copyTag]
  constructor
  · rintro (⟨e, he, hseed, hname⟩ | hs)
    · exact .inr ⟨e, he, hseed.elim (htags e he) id, hname⟩
    · exact .inl hs
  · rintro (hs | ⟨e, he, hcopy, hname⟩)
    · exact .inr hs
    · exact .inl ⟨e, he, .inr hcopy, hname⟩

/-- The outcome lists the declarations that carry the tag at the end. -/
theorem mem_copyable_iff {p : Program} {cap : Nat} {name : String} :
    name ∈ (p.closureEnd cap).2.copyable ↔ (p.tagged cap).CarriesCopy name := by
  rw [(p.closureEnd_settles cap).copyable, List.mem_mergeSort,
    (p.closureEnd_tagged cap).seeds, seedNames, ← isSeed_tagged_iff]
  exact mem_seeds (p := p.tagged cap)

/-- The outcome lists no name twice. -/
theorem nodup_copyable (p : Program) (cap : Nat) : (p.closureEnd cap).2.copyable.Nodup := by
  have hrun := p.closureEnd_settles cap
  rw [hrun.copyable]
  exact (List.mergeSort_perm _ _).nodup_iff.2 (hrun.grows.nodup (ClosureState.nodup_start p))

/-- The set of the tagged program and the outcome have the same names. -/
theorem copySet_ofProgram_perm (p : Program) (cap : Nat) (r : Registry) :
    (CopySet.ofProgram (p.tagged cap) r).names.Perm (p.closureEnd cap).2.copyable := by
  refine (List.perm_ext_iff_of_nodup ?_ (p.nodup_copyable cap)).2 fun name => ?_
  · exact CopySet.nodup_foldl_insert _ List.nodup_nil
  · rw [mem_copySet_ofProgram, mem_copyable_iff]

end Program

/-! ## The items of the source -/

/-- What is emitted comes behind the items that are there. -/
def OnlyAppends {α : Type} (x : EmittingItems α) : Prop :=
  ∀ st a st', x.run st = .ok a st' → st.items <+: st'.items

namespace OnlyAppends

variable {α β : Type} {x : EmittingItems α} {f : α → EmittingItems β}

/-- A result that is given appends no item. -/
theorem pure (a : α) : OnlyAppends (pure a) := by
  rintro st _ _ ⟨⟩
  exact List.prefix_rfl

/-- A change of the state that keeps the items in front only appends. -/
theorem modify {f : ItemEmission → ItemEmission} (hf : ∀ st, st.items <+: (f st).items) :
    OnlyAppends (modify f) := by
  rintro st _ _ ⟨⟩
  exact hf st

/-- Two emissions in a row only append if both do. -/
theorem bind (hx : OnlyAppends x) (hf : ∀ a, OnlyAppends (f a)) : OnlyAppends (x >>= f) := by
  intro st c st'' h
  rw [EStateM.run_bind] at h
  split at h
  next a st' hrun => exact (hx st a st' hrun).trans (hf a st' c st'' h)
  next => cases h

/-- A loop only appends if its rounds do. -/
theorem forM {f : α → EmittingItems Unit} (hf : ∀ a, OnlyAppends (f a)) (l : List α) :
    OnlyAppends (l.forM f) := by
  induction l with
  | nil => exact pure ()
  | cons a l ih => exact (hf a).bind fun _ => ih

/-- A loop that collects results only appends if its rounds do. -/
theorem mapM {f : α → EmittingItems β} (hf : ∀ a, OnlyAppends (f a)) (l : List α) :
    OnlyAppends (l.mapM f) := by
  induction l with
  | nil => exact pure []
  | cons a l ih =>
    rw [List.mapM_cons]
    exact (hf a).bind fun _ => ih.bind fun _ => pure _

end OnlyAppends

/-- An item is appended. -/
theorem emitItem_onlyAppends (text : String) : OnlyAppends (emitItem text) :=
  .modify fun _ => List.prefix_append _ _

/-- Items in a row are appended in their order. -/
theorem run_forM_emitItem (texts : List String) (st : ItemEmission) :
    (texts.forM emitItem).run st = .ok () { st with items := st.items ++ texts } := by
  induction texts generalizing st with
  | nil => simp [List.forM_nil, EStateM.run_pure]
  | cons text texts ih =>
    refine (ih { st with items := st.items ++ [text] }).trans ?_
    simp

/-- Items that are emitted first come first. -/
theorem OnlyAppends.prefix_of_run {α : Type} {x : EmittingItems α} (hx : OnlyAppends x)
    {texts : List String} {st st' : ItemEmission} {a : α}
    (h : (texts.forM emitItem >>= fun _ => x).run st = .ok a st') :
    st.items ++ texts <+: st'.items := by
  rw [EStateM.run_bind, run_forM_emitItem] at h
  exact hx _ _ _ h

section
variable (r : Registry) (copy : CopySet)

/-- Emitting the text of a function keeps the items that are there. -/
theorem emitFunction_onlyAppends (indent : Nat) (f : FunctionDecl) :
    OnlyAppends (emitFunction r copy indent f) := by
  intro st a st' h
  simp only [EStateM.run, emitFunction] at h
  split at h
  · cases h
    exact List.prefix_rfl
  · cases h

/-- Emitting an implementation appends its item behind those that are there. -/
theorem emitImpl_onlyAppends (b : ImplBlock) : OnlyAppends (emitImpl r copy b) := by
  refine .bind (.mapM (fun m => ?_) b.methods) fun _ => emitItem_onlyAppends _
  exact (emitFunction_onlyAppends r copy 1 m).bind fun _ => .pure _

/-- Emitting a function outside of implementations appends its item behind those that are there. -/
theorem emitFunctionItem_onlyAppends (f : FunctionDecl) :
    OnlyAppends (emitFunctionItem r copy f) :=
  (emitFunction_onlyAppends r copy 0 f).bind fun _ =>
    .bind (.modify fun _ => List.prefix_rfl) fun _ => emitItem_onlyAppends _

end

namespace Program

/-- The texts of the aggregates and then of the enums stand before all others. -/
theorem emitItems_items {p : Program} {r : Registry} {st : ItemEmission}
    (h : (p.emitItems r).run ⟨[], 0, []⟩ = .ok () st) :
    ∃ items, st.items = p.structs.map (·.text) ++ p.enums.map (·.text) ++ items := by
  have hrest : OnlyAppends (do
      p.impls.forM (emitImpl r (.ofProgram p r))
      p.functions.forM (emitFunctionItem r (.ofProgram p r))
      modify fun s => { s with notes := s.notes ++ [.emitted s.items.length s.fallthroughs] }) :=
    .bind (.forM (emitImpl_onlyAppends r _) _) fun _ =>
      .bind (.forM (emitFunctionItem_onlyAppends r _) _) fun _ => .modify fun _ => List.prefix_rfl
  rw [emitItems, EStateM.run_bind, run_forM_emitItem] at h
  obtain ⟨items, hitems⟩ :=
    (OnlyAppends.bind (.forM emitItem_onlyAppends _) fun _ => hrest).prefix_of_run h
  exact ⟨items, hitems.symm⟩

/-- The structures come first in the emitted source, and then the enumerations. -/
theorem emit_items {p : Program} {r : Registry} {header : Option String} {source : String}
    (h : (p.emit r header).value = .ok source) :
    ∃ items, source = headerText header ++ String.intercalate "\n"
      (p.structs.map (·.text) ++ p.enums.map (·.text) ++ items) := by
  rw [emit] at h
  split at h
  next st hrun =>
    obtain ⟨items, hitems⟩ := emitItems_items hrun
    cases h
    exact ⟨items, by rw [hitems]⟩
  next => cases h

end Program

/-- The text of a structure starts with its tags. -/
theorem StructDecl.exists_text (s : StructDecl) : ∃ body,
    s.text = "#[derive(" ++ String.intercalate ", " (allDerives s.derives) ++ ")]\n" ++
      "pub struct " ++ Name.type s.name ++ body := by
  rw [StructDecl.text]
  split
  · exact ⟨_, rfl⟩
  · rw [String.append_assoc, String.append_assoc]
    exact ⟨_, rfl⟩

/-- The text of an enumeration starts with its tags. -/
theorem EnumDecl.exists_text (e : EnumDecl) : ∃ body,
    e.text = "#[derive(" ++ String.intercalate ", " (allDerives e.derives) ++ ")]\n" ++
      "pub enum " ++ Name.type e.name ++ body := by
  rw [EnumDecl.text, String.append_assoc, String.append_assoc]
  exact ⟨_, rfl⟩

namespace Program

/-- **The outcome of the closure, the tags and the emitted attributes say the same.** A run of any
number of passes changes nothing but the tags of some declarations, which get those of `Clone` and
`Copy` that they lack. The names that carry `Copy` then are the duplicable names of the outcome, each
once, and those of the set that emission goes by. Every aggregate and every enum is emitted with an
attribute that lists its tags once each behind three that all have, `Copy` among them exactly when
the declaration carries it. -/
theorem copyClosure_derives (p : Program) (cap : Nat) :
    let (tagged, outcome) := (p.copyClosure cap).value
    List.Forall₂ Decl.Retagged p.decls tagged.decls ∧
      (∀ name, name ∈ outcome.copyable ↔ tagged.CarriesCopy name) ∧
      (∀ r, (CopySet.ofProgram tagged r).names.Perm outcome.copyable) ∧
      (∀ s ∈ tagged.structs, ∃ tags body, EmittedTags s.derives tags ∧
        s.text = "#[derive(" ++ String.intercalate ", " tags ++ ")]\n" ++
          "pub struct " ++ Name.type s.name ++ body) ∧
      (∀ e ∈ tagged.enums, ∃ tags body, EmittedTags e.derives tags ∧
        e.text = "#[derive(" ++ String.intercalate ", " tags ++ ")]\n" ++
          "pub enum " ++ Name.type e.name ++ body) ∧
      ∀ r header source, (tagged.emit r header).value = .ok source →
        ∃ items, source = headerText header ++ String.intercalate "\n"
          (tagged.structs.map (·.text) ++ tagged.enums.map (·.text) ++ items) := by
  refine ⟨?_, fun name => mem_copyable_iff, p.copySet_ofProgram_perm cap, ?_, ?_, ?_⟩
  · exact (ClosureState.start_retagged p).trans (ClosureState.settle_retagged cap 0 _)
  · intro s _
    obtain ⟨body, htext⟩ := s.exists_text
    exact ⟨_, body, allDerives_emitted s.derives, htext⟩
  · intro e _
    obtain ⟨body, htext⟩ := e.exists_text
    exact ⟨_, body, allDerives_emitted e.derives, htext⟩
  · exact fun _ _ _ => emit_items

end Program

end Oxidize
