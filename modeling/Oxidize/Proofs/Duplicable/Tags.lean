import Oxidize.Proofs.Duplicable.LeastClosure

/-!
# The tags of duplicable declarations

Between passes the set of duplicable names can be read off the declarations: it holds the names of
those that would be duplicable from the start (`ClosureState.Tagged`). So everything that the
closure has found out survives in the derive tags. Apart from them a pass leaves every declaration
as it is (`ClosureState.map_passOver`).
-/

namespace Oxidize

/-! ## Adding tags -/

/-- Adding the tags of duplication adds no other tag. -/
theorem mem_addCopyTags {derives : List String} {tag : String} :
    tag ∈ addCopyTags derives ↔ tag = "Clone" ∨ tag = copyTag ∨ tag ∈ derives := by
  simp only [addCopyTags, List.foldl_cons, List.foldl_nil, List.contains_iff_mem]
  grind

/-- Tags that are there already are not added again. -/
theorem addCopyTags_addCopyTags (derives : List String) :
    addCopyTags (addCopyTags derives) = addCopyTags derives := by
  have hclone : (addCopyTags derives).contains "Clone" = true :=
    List.contains_iff_mem.2 (mem_addCopyTags.2 (.inl rfl))
  have hcopy : (addCopyTags derives).contains copyTag = true :=
    List.contains_iff_mem.2 (mem_addCopyTags.2 (.inr (.inl rfl)))
  rw [addCopyTags, List.foldl_cons, List.foldl_cons, List.foldl_nil, if_pos hclone, if_pos hcopy]

namespace Decl

/-- Adding the tags of duplication twice adds them once. -/
@[simp] theorem withCopyTags_withCopyTags (d : Decl) :
    d.withCopyTags.withCopyTags = d.withCopyTags := by
  cases d <;> simp only [withCopyTags, addCopyTags_addCopyTags]

/-- What is duplicable from the start stays so with tags. -/
theorem seed?_withCopyTags {d : Decl} {name : String} (h : d.seed? = some name) :
    d.withCopyTags.seed? = some name := by
  cases d with
  | struct s =>
    simp only [seed?, Option.ite_none_right_eq_some] at h
    simp [withCopyTags, seed?, StructDecl.hasCopy, mem_addCopyTags, h.2]
  | enum e =>
    simp only [seed?, Option.ite_none_right_eq_some] at h
    simp [withCopyTags, seed?, EnumDecl.hasCopy, mem_addCopyTags, h.2]
  | _ => cases h

/-- A promoted aggregate is duplicable from the start the next time. -/
theorem seed?_withCopyTags_of_promotable? {set : CopySet} {d : Decl} {name : String}
    (h : d.promotable? set = some name) : d.withCopyTags.seed? = some name := by
  cases d with
  | struct s =>
    simp only [promotable?, Option.ite_none_right_eq_some] at h
    simp [withCopyTags, seed?, StructDecl.hasCopy, mem_addCopyTags, h.2]
  | _ => cases h

end Decl

/-- The names that are duplicable from the start. -/
def seedNames (ds : List Decl) : List String :=
  ds.filterMap Decl.seed?

/-- The names that are duplicable from the start, by the first declaration and the rest. -/
theorem mem_seedNames_cons {d : Decl} {ds : List Decl} {name : String} :
    name ∈ seedNames (d :: ds) ↔ d.seed? = some name ∨ name ∈ seedNames ds := by
  simp [seedNames]

namespace ClosureState

/-! ## What passes leave as it is -/

section
variable {α : Type} {f : Decl → α} (hf : ∀ d, f d.withCopyTags = f d)
include hf

/-- A pass changes nothing of declarations but tags. -/
theorem map_passOver (pass : Nat) (set : CopySet) (ds : List Decl) :
    (passOver pass set ds).value.decls.map f = ds.map f := by
  induction ds generalizing set with
  | nil => rfl
  | cons d ds ih =>
    rw [passOver]
    split
    · simp [ih, hf]
    · simp [ih]

/-- All passes together change nothing of declarations but tags. -/
theorem map_settle (left done : Nat) (s : ClosureState) :
    (settle left done s).value.1.decls.map f = s.decls.map f := by
  induction left generalizing done s with
  | zero => rfl
  | succ left ih =>
    rw [settle, Traced.value_bind]
    split
    · exact map_passOver hf _ _ _
    · exact (ih _ _).trans (map_passOver hf _ _ _)

/-- The start changes nothing of declarations but tags. -/
theorem map_start (p : Program) : (start p).decls.map f = p.decls.map f := by
  rw [start, List.map_map]
  refine List.map_congr_left fun d _ => ?_
  rw [Function.comp_apply]
  split
  · exact hf d
  · rfl

end

/-! ## The set in the tags -/

/-- The set holds what the declarations say is duplicable from the start, and those have all the
tags. -/
structure Tagged (s : ClosureState) : Prop where
  seeds : ∀ name, name ∈ s.set.names ↔ name ∈ seedNames s.decls
  tags : ∀ d ∈ s.decls, d.seed?.isSome → d.withCopyTags = d

/-- What is duplicable from the start stays so after a pass. -/
theorem seedNames_subset_passOver (pass : Nat) (set : CopySet) (ds : List Decl) :
    seedNames ds ⊆ seedNames (passOver pass set ds).value.decls := by
  intro name h
  induction ds generalizing set with
  | nil => exact h
  | cons d ds ih =>
    rw [passOver]
    split
    · refine mem_seedNames_cons.2 ((mem_seedNames_cons.1 h).imp ?_ (ih _))
      exact Decl.seed?_withCopyTags
    · exact mem_seedNames_cons.2 ((mem_seedNames_cons.1 h).imp id (ih _))

/-- A name is new in the set after a pass because of an aggregate that the pass has tagged. -/
theorem mem_passOver {pass : Nat} {set : CopySet} {ds : List Decl}
    (hds : seedNames ds ⊆ set.names) {name : String} :
    name ∈ (passOver pass set ds).value.set.names ↔
      name ∈ set.names ∨ name ∈ seedNames (passOver pass set ds).value.decls := by
  induction ds generalizing set with
  | nil => simp [passOver, seedNames]
  | cons d ds ih =>
    have hrest : seedNames ds ⊆ set.names := fun _ h => hds (mem_seedNames_cons.2 (.inr h))
    rw [passOver]
    split
    next new hnew =>
      have hinsert : seedNames ds ⊆ (set.insert new).names :=
        fun _ h => CopySet.mem_insert.2 (.inr (hrest h))
      have hseed : d.withCopyTags.seed? = some name ↔ name = new := by
        rw [Decl.seed?_withCopyTags_of_promotable? hnew, Option.some.injEq, eq_comm]
      simp only [Traced.value_bind, Traced.value_pure, ih hinsert, CopySet.mem_insert,
        mem_seedNames_cons, hseed]
      tauto
    next =>
      have hseed : d.seed? = some name → name ∈ set.names := fun h =>
        hds (mem_seedNames_cons.2 (.inl h))
      simp only [Traced.value_bind, Traced.value_pure, ih hrest, mem_seedNames_cons]
      tauto

/-- A pass keeps a declaration or adds the tags to it. -/
theorem mem_decls_passOver {pass : Nat} {set : CopySet} {ds : List Decl} {d : Decl}
    (h : d ∈ (passOver pass set ds).value.decls) : d ∈ ds ∨ d.withCopyTags = d := by
  induction ds generalizing set with
  | nil => exact .inl h
  | cons first ds ih =>
    rw [passOver] at h
    split at h
    · rcases List.mem_cons.1 h with rfl | h
      · exact .inr (by simp)
      · exact (ih h).imp (List.mem_cons_of_mem _) id
    · rcases List.mem_cons.1 h with rfl | h
      · exact .inl List.mem_cons_self
      · exact (ih h).imp (List.mem_cons_of_mem _) id

/-- After a pass the set still holds what the tags say. -/
theorem Tagged.passOver {s : ClosureState} (hs : s.Tagged) (pass : Nat) :
    (passOver pass s.set s.decls).value.Tagged where
  seeds name := by
    rw [mem_passOver fun name h => (hs.seeds name).2 h, hs.seeds]
    exact or_iff_right_of_imp fun h => seedNames_subset_passOver pass s.set s.decls h
  tags d hd hseed := (mem_decls_passOver hd).elim (fun h => hs.tags d h hseed) id

/-- After all passes the set holds what the tags say. -/
theorem Tagged.settle {s : ClosureState} (hs : s.Tagged) (left done : Nat) :
    (settle left done s).value.1.Tagged := by
  induction left generalizing done s with
  | zero => exact hs
  | succ left ih =>
    rw [ClosureState.settle, Traced.value_bind]
    split
    · exact hs.passOver _
    · exact ih (hs.passOver _) _

/-- At the start the set holds what the tags say. -/
theorem start_tagged (p : Program) : (start p).Tagged where
  seeds name := by
    have hdecls : seedNames (start p).decls = seedNames p.decls := by
      rw [start, seedNames, seedNames, List.filterMap_map]
      refine List.filterMap_congr fun d _ => ?_
      rw [Function.comp_apply]
      split
      next h =>
        obtain ⟨name, hname⟩ := Option.isSome_iff_exists.1 h
        rw [hname, Decl.seed?_withCopyTags hname]
      next => rfl
    rw [hdecls, mem_start, ← Program.mem_seeds, seedNames]
  tags d hd hseed := by
    obtain ⟨d, _, rfl⟩ := List.mem_map.1 hd
    by_cases h : d.seed?.isSome
    · simp [h]
    · simp [h] at hseed

end ClosureState

/-- At the end of the closure the set holds what the tags say. -/
theorem Program.closureEnd_tagged (p : Program) (cap : Nat) : (p.closureEnd cap).1.Tagged :=
  (ClosureState.start_tagged p).settle cap 0

end Oxidize
