import Mathlib.Data.Finset.Card
import Mathlib.Order.Bounds.Basic
import Oxidize.Duplicable.Closure
import Oxidize.Proofs.Duplicable.Expansion

/-!
# The closure of duplicable declarations is a least fixpoint

All that the closure ever does to the set of duplicable names is to promote one more aggregate whose
fields the set admits (`CopySet.Promotes`), so what a promotion preserves holds of a pass and of
any number of passes: the set only grows, each new name is that of an aggregate it admits, and it
stays within every set closed under promotion. A pass that changes nothing leaves nothing to promote
(`ClosureState.offers_eq_nil_of_quiet`), and a pass that changes something uses up a name.

`Program.copyClosure_least` puts this together: the outcome lies within the least closed set, the
closure reports convergence exactly when it has reached that set, and it has when it may pass once
for each name that is not duplicable from the start.
-/

namespace Oxidize

open Relation

/-! ## Promotions -/

/-- All fields of the aggregate are admitted. -/
def StructDecl.AdmittedBy (s : StructDecl) (set : CopySet) : Prop :=
  ∀ f ∈ s.fields, set.admits f.ty = true

/-- A structure that a set admits is admitted by every larger one. -/
theorem StructDecl.AdmittedBy.mono {s : StructDecl} {set set' : CopySet}
    (h : s.AdmittedBy set) (hr : set.registry = set'.registry) (hn : set.names ⊆ set'.names) :
    s.AdmittedBy set' :=
  fun f hf => CopySet.admits_mono hr hn (h f hf)

/-- The names that declarations have to promote to a set. -/
def offers (ds : List Decl) (set : CopySet) : List String :=
  ds.filterMap (Decl.promotable? set)

/-- A pass offers the structures that are not in the set and that it admits. -/
theorem mem_offers {ds : List Decl} {set : CopySet} {name : String} :
    name ∈ offers ds set ↔
      ∃ s ∈ ds.filterMap Decl.struct?, s.name = name ∧ name ∉ set.names ∧ s.AdmittedBy set := by
  rw [offers, List.mem_filterMap]
  constructor
  · rintro ⟨d, hd, h⟩
    cases d with
    | struct s =>
      simp only [Decl.promotable?, CopySet.contains, Option.ite_none_right_eq_some,
        Option.some.injEq, Bool.and_eq_true, Bool.not_eq_true', List.all_eq_true,
        List.contains_eq_mem, decide_eq_false_iff_not] at h
      obtain ⟨hs, rfl⟩ := h
      exact ⟨s, List.mem_filterMap.2 ⟨_, hd, rfl⟩, rfl, hs⟩
    | _ => cases h
  · rintro ⟨s, hs, rfl, hnew, hall⟩
    obtain ⟨d, hd, hstruct⟩ := List.mem_filterMap.1 hs
    refine ⟨d, hd, ?_⟩
    cases d with
    | struct s' =>
      cases hstruct
      have hfields : (s.fields.all fun f => set.admits f.ty) = true := List.all_eq_true.2 hall
      simp [Decl.promotable?, CopySet.contains, hnew, hfields]
    | _ => cases hstruct

namespace CopySet

/-- A name that is new is put in front. -/
theorem names_insert_of_not_mem {set : CopySet} {name : String} (h : name ∉ set.names) :
    (set.insert name).names = name :: set.names := by
  simp [insert, contains, h]

/-- After a name is added the set has it and what it had before. -/
@[simp] theorem mem_insert {set : CopySet} {name other : String} :
    other ∈ (set.insert name).names ↔ other = name ∨ other ∈ set.names := by
  rw [insert, contains]
  split <;> simp_all

/-- Adding a name does not change the declarations that the set knows. -/
@[simp] theorem registry_insert (set : CopySet) (name : String) :
    (set.insert name).registry = set.registry := by
  rw [insert]
  split <;> rfl

/-- Adding a name puts none into the set twice. -/
theorem nodup_insert {set : CopySet} (name : String) (h : set.names.Nodup) :
    (set.insert name).names.Nodup := by
  rw [insert, contains]
  split <;> simp_all

/-- One name that the declarations offer is added to the set. -/
def Promotes (ds : List Decl) (set set' : CopySet) : Prop :=
  ∃ name ∈ offers ds set, set' = set.insert name

/-- The names of the set are closed under promotion. -/
def Closed (ds : List Decl) (set : CopySet) : Prop :=
  ∀ s ∈ ds.filterMap Decl.struct?, s.AdmittedBy set → s.name ∈ set.names

/-- A set is closed exactly if a pass offers nothing. -/
theorem closed_iff_offers {ds : List Decl} {set : CopySet} :
    set.Closed ds ↔ offers ds set = [] := by
  rw [List.eq_nil_iff_forall_not_mem]
  constructor
  · intro h name hname
    obtain ⟨s, hs, rfl, hnew, hall⟩ := mem_offers.1 hname
    exact hnew (h s hs hall)
  · intro h s hs hall
    by_contra hnew
    exact h s.name (mem_offers.2 ⟨s, hs, rfl, hnew, hall⟩)

/-- What a set comes to by promotions. -/
structure Grows (ds : List Decl) (set set' : CopySet) : Prop where
  registry : set.registry = set'.registry
  names : set.names ⊆ set'.names
  nodup : set.names.Nodup → set'.names.Nodup
  length : set.names.length ≤ set'.names.length
  admitted : ∀ name ∈ set'.names, name ∉ set.names →
    ∃ s ∈ ds.filterMap Decl.struct?, s.name = name ∧ s.AdmittedBy set'
  least : ∀ closed : CopySet, closed.registry = set.registry → closed.Closed ds →
    set.names ⊆ closed.names → set'.names ⊆ closed.names

/-- A set grows into itself. -/
theorem Grows.refl (ds : List Decl) (set : CopySet) : Grows ds set set where
  registry := rfl
  names := List.Subset.refl _
  nodup := id
  length := Nat.le_refl _
  admitted := fun _ h hnew => absurd h hnew
  least := fun _ _ _ h => h

/-- What grows twice has grown. -/
theorem Grows.trans {ds : List Decl} {a b c : CopySet} (hab : Grows ds a b)
    (hbc : Grows ds b c) : Grows ds a c where
  registry := hab.registry.trans hbc.registry
  names := List.Subset.trans hab.names hbc.names
  nodup := hbc.nodup ∘ hab.nodup
  length := hab.length.trans hbc.length
  admitted := by
    intro name hc ha
    by_cases hb : name ∈ b.names
    · obtain ⟨s, hs, hname, hall⟩ := hab.admitted name hb ha
      exact ⟨s, hs, hname, hall.mono hbc.registry hbc.names⟩
    · exact hbc.admitted name hc hb
  least := fun closed hr hclosed ha =>
    hbc.least closed (hr.trans hab.registry) hclosed (hab.least closed hr hclosed ha)

/-- A pass makes a set grow. -/
theorem Promotes.grows {ds : List Decl} {set set' : CopySet} (h : Promotes ds set set') :
    Grows ds set set' := by
  obtain ⟨name, hname, rfl⟩ := h
  obtain ⟨s, hs, rfl, hnew, hall⟩ := mem_offers.1 hname
  have hsub : set.names ⊆ (set.insert s.name).names := fun _ h => mem_insert.2 (.inr h)
  exact {
    registry := (registry_insert set s.name).symm
    names := hsub
    nodup := nodup_insert s.name
    length := by rw [names_insert_of_not_mem hnew]; exact Nat.le_succ _
    admitted := fun other hother hold => by
      obtain rfl := (mem_insert.1 hother).resolve_right hold
      exact ⟨s, hs, rfl, hall.mono (registry_insert set s.name).symm hsub⟩
    least := fun closed hr hclosed hle other hother => by
      rcases mem_insert.1 hother with rfl | hold
      · exact hclosed s hs (hall.mono hr.symm hle)
      · exact hle hold }

/-- Any number of promotions. -/
theorem Grows.of_promotes {ds : List Decl} {set set' : CopySet}
    (h : ReflTransGen (Promotes ds) set set') : Grows ds set set' := by
  induction h with
  | refl => exact .refl ds set
  | tail _ hstep ih => exact ih.trans hstep.grows

end CopySet

/-! ## Passes -/

namespace Decl

/-- The tags that a pass adds do not change what is promoted. -/
@[simp] theorem promotable?_withCopyTags (set : CopySet) (d : Decl) :
    d.withCopyTags.promotable? set = d.promotable? set := by
  cases d <;> rfl

end Decl

/-- The first declaration is offered first. -/
theorem offers_cons (d : Decl) (ds : List Decl) (set : CopySet) :
    offers (d :: ds) set = (d.promotable? set).toList ++ offers ds set := by
  rw [offers, List.filterMap_cons]
  cases d.promotable? set <;> rfl

namespace ClosureState

open CopySet

/-- Tags do not change what the declarations offer. -/
theorem offers_passOver (pass : Nat) (set : CopySet) (ds : List Decl) :
    offers (passOver pass set ds).value.decls = offers ds := by
  funext other
  induction ds generalizing set with
  | nil => rfl
  | cons d ds ih =>
    rw [passOver, offers_cons]
    split
    next name _ => simp [offers_cons, ih]
    next => simp [offers_cons, ih]

/-- A pass promotes names that its declarations offer. -/
theorem passOver_promotes (pass : Nat) (set : CopySet) (ds : List Decl) :
    ReflTransGen (Promotes ds) set (passOver pass set ds).value.set := by
  induction ds generalizing set with
  | nil => exact .refl
  | cons d ds ih =>
    have hmono : ∀ a b, Promotes ds a b → Promotes (d :: ds) a b := by
      rintro a b ⟨name, hname, rfl⟩
      exact ⟨name, by rw [offers_cons]; exact List.mem_append_right _ hname, rfl⟩
    rw [passOver]
    split
    next name h =>
      refine .head ⟨name, ?_, rfl⟩ (ReflTransGen.mono hmono _ _ (ih (set.insert name)))
      rw [offers_cons, h]
      exact List.mem_cons_self
    next => exact ReflTransGen.mono hmono _ _ (ih set)

/-- A pass after which the set is as large as before has promoted nothing, and could not. -/
theorem passOver_quiet {pass : Nat} {set : CopySet} {ds : List Decl}
    (h : (passOver pass set ds).value.set.names.length = set.names.length) :
    (passOver pass set ds).value.set = set ∧ offers ds set = [] := by
  induction ds with
  | nil => exact ⟨rfl, rfl⟩
  | cons d ds ih =>
    rw [passOver] at h ⊢
    rw [offers_cons]
    split at h
    next name hname =>
      -- The name is new, and the declarations after it do not make the set smaller again.
      have hmem : name ∈ offers (d :: ds) set := by
        rw [offers_cons, hname]
        exact List.mem_cons_self
      obtain ⟨_, _, _, hnew, _⟩ := mem_offers.1 hmem
      have hle := (Grows.of_promotes (passOver_promotes pass (set.insert name) ds)).length
      rw [names_insert_of_not_mem hnew, List.length_cons] at hle
      simp only [Traced.value_bind, Traced.value_pure] at h
      omega
    next hname =>
      simp only [hname, Traced.value_bind, Traced.value_pure] at h ⊢
      exact ih h

/-! ## Passes until nothing changes -/

/-- The closure stops exactly if a pass would offer nothing. -/
theorem isSettled_iff (s : ClosureState) : s.isSettled = true ↔ offers s.decls s.set = [] := by
  simp [isSettled, offers, List.filterMap_eq_nil_iff]

/-- What passing over declarations until nothing changes comes to. -/
structure Settles (ds : List Decl) (left done : Nat) (set : CopySet)
    (result : ClosureState × ClosureOutcome) : Prop where
  grows : Grows ds set result.1.set
  copyable : result.2.copyable = result.1.set.names.mergeSort (· ≤ ·)
  iterations : result.2.iterations ≤ done + left
  converged : result.2.converged = true ↔ result.1.set.Closed ds
  /-- Every pass but the last has added a name. -/
  length : result.2.converged = false → set.names.length + left ≤ result.1.set.names.length

/-- Passes are made until nothing is offered or their number is used up. -/
theorem settle_settles (ds : List Decl) (left done : Nat) (s : ClosureState)
    (hs : offers s.decls = offers ds) : Settles ds left done s.set (settle left done s).value := by
  induction left generalizing done s with
  | zero =>
    exact {
      grows := .refl ds s.set
      copyable := rfl
      iterations := Nat.le_refl _
      converged := by rw [closed_iff_offers, ← hs]; exact isSettled_iff s
      length := fun _ => Nat.le_refl _ }
  | succ left ih =>
    have hpass : Grows ds s.set (passOver (done + 1) s.set s.decls).value.set := by
      have h := passOver_promotes (done + 1) s.set s.decls
      unfold Promotes at h
      rw [hs] at h
      exact .of_promotes h
    have hoffers : offers (passOver (done + 1) s.set s.decls).value.decls = offers ds :=
      (offers_passOver _ _ _).trans hs
    rw [settle, Traced.value_bind]
    generalize hnext : (passOver (done + 1) s.set s.decls).value = next at hpass hoffers ⊢
    split
    next hlen =>
      have hquiet := passOver_quiet (hnext ▸ hlen)
      rw [hnext] at hquiet
      exact {
        grows := hpass
        copyable := rfl
        iterations := by simp [outcome]
        converged := by simp [outcome, closed_iff_offers, hquiet, ← hs]
        length := nofun }
    next hlen =>
      have hrest := ih (done + 1) next hoffers
      have hlt : s.set.names.length < next.set.names.length :=
        Nat.lt_of_le_of_ne hpass.length (Ne.symm hlen)
      exact {
        grows := hpass.trans hrest.grows
        copyable := hrest.copyable
        iterations := by have := hrest.iterations; omega
        converged := hrest.converged
        length := fun hc => by have := hrest.length hc; omega }

end ClosureState

/-! ## The start -/

namespace CopySet

/-- After names are added the set has them and what it had before. -/
theorem mem_foldl_insert {names : List String} {set : CopySet} {name : String} :
    name ∈ (names.foldl insert set).names ↔ name ∈ names ∨ name ∈ set.names := by
  induction names generalizing set with
  | nil => simp
  | cons first rest ih =>
    rw [List.foldl_cons, ih, mem_insert, List.mem_cons]
    tauto

/-- Adding names does not change the declarations that the set knows. -/
theorem registry_foldl_insert (names : List String) (set : CopySet) :
    (names.foldl insert set).registry = set.registry := by
  induction names generalizing set with
  | nil => rfl
  | cons first rest ih => rw [List.foldl_cons, ih, registry_insert]

/-- Adding names puts none into the set twice. -/
theorem nodup_foldl_insert (names : List String) {set : CopySet} (h : set.names.Nodup) :
    (names.foldl insert set).names.Nodup := by
  induction names generalizing set with
  | nil => exact h
  | cons first rest ih => exact ih (nodup_insert first h)

end CopySet

namespace Program

/-- The name of an enum without data, or of a declaration that is tagged already. -/
def IsSeed (p : Program) (name : String) : Prop :=
  (∃ e ∈ p.enums, (e.isFieldless = true ∨ e.hasCopy = true) ∧ e.name = name) ∨
    ∃ s ∈ p.structs, s.hasCopy = true ∧ s.name = name

instance (p : Program) : DecidablePred p.IsSeed :=
  fun _ => inferInstanceAs (Decidable (_ ∨ _))

/-- The seeds are the names of declarations that carry the tag, and of enumerations without data. -/
theorem mem_seeds {p : Program} {name : String} :
    name ∈ p.decls.filterMap Decl.seed? ↔ p.IsSeed name := by
  rw [List.mem_filterMap]
  constructor
  · rintro ⟨d, hd, h⟩
    cases d with
    | enum e =>
      simp only [Decl.seed?, Option.ite_none_right_eq_some, Option.some.injEq, Bool.or_eq_true] at h
      exact .inl ⟨e, List.mem_filterMap.2 ⟨_, hd, rfl⟩, h.1.symm, h.2⟩
    | struct s =>
      simp only [Decl.seed?, Option.ite_none_right_eq_some, Option.some.injEq] at h
      exact .inr ⟨s, List.mem_filterMap.2 ⟨_, hd, rfl⟩, h⟩
    | _ => cases h
  · rintro (⟨e, he, hseed, rfl⟩ | ⟨s, hs, hseed, rfl⟩)
    · obtain ⟨d, hd, henum⟩ := List.mem_filterMap.1 he
      refine ⟨d, hd, ?_⟩
      cases d with
      | enum e' =>
        cases henum
        simp [Decl.seed?, hseed.symm]
      | _ => cases henum
    · obtain ⟨d, hd, hstruct⟩ := List.mem_filterMap.1 hs
      refine ⟨d, hd, ?_⟩
      cases d with
      | struct s' =>
        cases hstruct
        simp [Decl.seed?, hseed]
      | _ => cases hstruct

end Program

namespace ClosureState

variable (p : Program)

/-- The closure starts from the seeds. -/
theorem mem_start {name : String} : name ∈ (start p).set.names ↔ p.IsSeed name := by
  rw [start, CopySet.mem_foldl_insert, Program.mem_seeds]
  simp [CopySet.ofRegistry]

/-- The set knows the declarations of the program. -/
theorem registry_start : (start p).set.registry = some (.ofProgram p) :=
  CopySet.registry_foldl_insert _ _

/-- No seed is in the set twice. -/
theorem nodup_start : (start p).set.names.Nodup :=
  CopySet.nodup_foldl_insert _ List.nodup_nil

/-- The tags that the start adds do not change what is offered. -/
theorem offers_start : offers (start p).decls = offers p.decls := by
  funext set
  rw [start, offers, offers, List.filterMap_map]
  congr 1
  funext d
  rw [Function.comp_apply]
  split
  · exact Decl.promotable?_withCopyTags set d
  · rfl

end ClosureState

/-! ## The least closed set -/

namespace Program

/-- A set of names with the declarations of the program. -/
def copySet (p : Program) (names : List String) : CopySet :=
  ⟨names, some (.ofProgram p)⟩

/-- The set holds what is duplicable from the start, and every aggregate whose fields it admits. -/
structure CopyClosed (p : Program) (names : Finset String) : Prop where
  seeds : ∀ name, p.IsSeed name → name ∈ names
  aggregates : ∀ s ∈ p.structs, s.AdmittedBy (p.copySet names.toList) → s.name ∈ names

/-- A list of names is closed as a set of names if it has the seeds and nothing is offered beyond
it. -/
theorem copyClosed_toFinset {p : Program} {names : List String} :
    p.CopyClosed names.toFinset ↔
      (∀ name, p.IsSeed name → name ∈ names) ∧ (p.copySet names).Closed p.decls := by
  have hsub : names ⊆ names.toFinset.toList := fun _ h => by simpa using h
  have hsup : names.toFinset.toList ⊆ names := fun _ h => by simpa using h
  constructor
  · intro h
    refine ⟨fun name hseed => List.mem_toFinset.1 (h.seeds name hseed), fun s hs hall => ?_⟩
    exact List.mem_toFinset.1 (h.aggregates s hs (hall.mono rfl hsub))
  · rintro ⟨hseeds, hclosed⟩
    refine ⟨fun name hseed => List.mem_toFinset.2 (hseeds name hseed), fun s hs hall => ?_⟩
    exact List.mem_toFinset.2 (hclosed s hs (hall.mono rfl hsup))

/-- The state that the closure stops in. -/
def closureEnd (p : Program) (cap : Nat) : ClosureState × ClosureOutcome :=
  (ClosureState.settle cap 0 (.start p)).value

/-- The closure of a program makes passes from its start until it settles or their number is used
up. -/
theorem closureEnd_settles (p : Program) (cap : Nat) :
    ClosureState.Settles p.decls cap 0 (ClosureState.start p).set (p.closureEnd cap) :=
  ClosureState.settle_settles p.decls cap 0 (.start p) (ClosureState.offers_start p)

/-- The set at the end is determined by its names. -/
theorem closureEnd_set (p : Program) (cap : Nat) :
    (p.closureEnd cap).1.set = p.copySet (p.closureEnd cap).1.set.names := by
  have h := (p.closureEnd_settles cap).grows.registry
  rw [ClosureState.registry_start] at h
  rw [copySet, h]

/-- The closure stays within every closed set. -/
theorem closureEnd_subset (p : Program) (cap : Nat) {names : Finset String}
    (h : p.CopyClosed names) : (p.closureEnd cap).1.set.names.toFinset ⊆ names := by
  intro name hname
  have hclosed := copyClosed_toFinset.1 (names.toList_toFinset.symm ▸ h)
  have hle := (p.closureEnd_settles cap).grows.least (p.copySet names.toList)
    (ClosureState.registry_start p).symm hclosed.2
    (fun seed hseed => hclosed.1 seed ((ClosureState.mem_start p).1 hseed))
  exact Finset.mem_toList.1 (hle (List.mem_toFinset.1 hname))

/-- The closure converges exactly if the names at its end are closed. -/
theorem converged_iff_copyClosed (p : Program) (cap : Nat) :
    (p.closureEnd cap).2.converged = true ↔
      p.CopyClosed (p.closureEnd cap).1.set.names.toFinset := by
  rw [copyClosed_toFinset, ← closureEnd_set, (p.closureEnd_settles cap).converged]
  refine ⟨fun hclosed => ⟨fun name hseed => ?_, hclosed⟩, And.right⟩
  exact (p.closureEnd_settles cap).grows.names ((ClosureState.mem_start p).2 hseed)

/-- The names of aggregates that the closure may have to add. -/
def candidates (p : Program) : Finset String :=
  (p.structs.map (·.name)).toFinset.filter (¬ p.IsSeed ·)

/-- One pass for each name that is not duplicable from the start is enough. -/
theorem converged_of_candidates_le (p : Program) (cap : Nat) (h : p.candidates.card ≤ cap) :
    (p.closureEnd cap).2.converged = true := by
  have hrun := p.closureEnd_settles cap
  by_contra hc
  have hlen := hrun.length (Bool.eq_false_iff.2 hc)
  -- Something is left to promote, so the set has not used up all names it could hold.
  obtain ⟨missing, hmissing⟩ : ∃ name, name ∈ offers p.decls (p.closureEnd cap).1.set := by
    rw [hrun.converged, CopySet.closed_iff_offers] at hc
    exact List.exists_mem_of_ne_nil _ hc
  obtain ⟨s, hs, rfl, hnew, _⟩ := mem_offers.1 hmissing
  have hmem : ∀ name ∈ s.name :: (p.closureEnd cap).1.set.names,
      name ∈ (ClosureState.start p).set.names.toFinset ∪ p.candidates := by
    intro name hname
    rw [Finset.mem_union, List.mem_toFinset]
    by_cases hseed : name ∈ (ClosureState.start p).set.names
    · exact .inl hseed
    · refine .inr (Finset.mem_filter.2 ⟨?_, fun h => hseed ((ClosureState.mem_start p).2 h)⟩)
      rw [List.mem_toFinset, List.mem_map]
      rcases List.mem_cons.1 hname with rfl | hname
      · exact ⟨s, hs, rfl⟩
      · obtain ⟨s', hs', rfl, _⟩ := hrun.grows.admitted name hname hseed
        exact ⟨s', hs', rfl⟩
  have hnodup : (s.name :: (p.closureEnd cap).1.set.names).Nodup :=
    List.nodup_cons.2 ⟨hnew, hrun.grows.nodup (ClosureState.nodup_start p)⟩
  have hcard := calc
    (p.closureEnd cap).1.set.names.length + 1
      = (s.name :: (p.closureEnd cap).1.set.names).toFinset.card :=
        (List.toFinset_card_of_nodup hnodup).symm
    _ ≤ ((ClosureState.start p).set.names.toFinset ∪ p.candidates).card :=
        Finset.card_le_card fun name h => hmem name (List.mem_toFinset.1 h)
    _ ≤ (ClosureState.start p).set.names.toFinset.card + p.candidates.card :=
        Finset.card_union_le _ _
    _ ≤ (ClosureState.start p).set.names.length + p.candidates.card :=
        Nat.add_le_add_right (List.toFinset_card_le _) _
  omega

/-- The outcome is that of the state at the end. -/
theorem copyClosure_outcome (p : Program) (cap : Nat) :
    (p.copyClosure cap).value.2 = (p.closureEnd cap).2 :=
  rfl

/-- The outcome lists the names of the set. -/
theorem mem_copyable (p : Program) {cap : Nat} {name : String} :
    name ∈ (p.closureEnd cap).2.copyable ↔ name ∈ (p.closureEnd cap).1.set.names := by
  rw [(p.closureEnd_settles cap).copyable, List.mem_mergeSort]

/-- The outcome has the names of the set and no others. -/
theorem toFinset_copyable (p : Program) (cap : Nat) :
    (p.closureEnd cap).2.copyable.toFinset = (p.closureEnd cap).1.set.names.toFinset := by
  ext name
  rw [List.mem_toFinset, List.mem_toFinset, mem_copyable]

/-- Enough passes reach a closed set, and every number of passes stays within all of them. -/
theorem exists_isLeast_copyClosed (p : Program) :
    ∃ least, IsLeast {names | p.CopyClosed names} least :=
  ⟨_, (p.converged_iff_copyClosed _).1 (p.converged_of_candidates_le _ (Nat.le_refl _)),
    fun _ h => p.closureEnd_subset _ h⟩

/-- **The closure is the least fixpoint, and knows when it has reached it.** Where no alias contains
itself every check of a type has an answer, and the outcome lies between what is duplicable from the
start and the least closed set, holds only aggregates it admits, and is that set exactly when the
closure reports convergence. -/
theorem copyClosure_least (p : Program) (hp : (Registry.ofProgram p).Acyclic) (cap : Nat) :
    (∀ names t, ((p.copySet names).admitsWithin ((p.copySet names).expansionBound t) t).isSome) ∧
    ∃ least : Finset String, IsLeast {names | p.CopyClosed names} least ∧
      let outcome := (p.copyClosure cap).value.2
      outcome.copyable.toFinset ⊆ least ∧
      (∀ name, p.IsSeed name → name ∈ outcome.copyable) ∧
      (∀ name ∈ outcome.copyable, ¬ p.IsSeed name →
        ∃ s ∈ p.structs, s.name = name ∧ s.AdmittedBy (p.copySet outcome.copyable)) ∧
      (outcome.converged = true ↔ outcome.copyable.toFinset = least) ∧
      outcome.iterations ≤ cap ∧
      (((p.structs.map (·.name)).toFinset.filter (¬ p.IsSeed ·)).card ≤ cap →
        outcome.converged = true) := by
  refine ⟨fun names t => CopySet.admitsWithin_expansionBound_isSome hp names t, ?_⟩
  have hrun := p.closureEnd_settles cap
  obtain ⟨least, hleast⟩ := p.exists_isLeast_copyClosed
  refine ⟨least, hleast, ?_⟩
  rw [copyClosure_outcome]
  refine ⟨?_, fun name hseed => ?_, fun name hname hseed => ?_, ?_, ?_, ?_⟩
  · exact p.toFinset_copyable cap ▸ p.closureEnd_subset cap hleast.1
  · exact p.mem_copyable.2 (hrun.grows.names ((ClosureState.mem_start p).2 hseed))
  · obtain ⟨s, hs, rfl, hall⟩ := hrun.grows.admitted name (p.mem_copyable.1 hname)
      fun h => hseed ((ClosureState.mem_start p).1 h)
    rw [closureEnd_set] at hall
    exact ⟨s, hs, rfl, hall.mono rfl fun other h => p.mem_copyable.2 h⟩
  · rw [converged_iff_copyClosed, toFinset_copyable]
    constructor
    · exact fun h => (p.closureEnd_subset cap hleast.1).antisymm (hleast.2 h)
    · exact fun h => h ▸ hleast.1
  · simpa using hrun.iterations
  · exact p.converged_of_candidates_le cap

/-- An aggregate that holds a later one through an alias, so that one pass is not enough, besides
one that is not duplicable. -/
def aliasedChain : Program where
  decls := [
    .alias ⟨.zero, "Pair", .tuple [.f64, .aggregate "Inner"]⟩,
    .struct ⟨.zero, "Outer", [⟨"pair", .aggregate "Pair"⟩], []⟩,
    .struct ⟨.zero, "Inner", [⟨"shade", .optional (.enum "Shade")⟩], []⟩,
    .struct ⟨.zero, "Label", [⟨"text", .ownedText⟩], []⟩,
    .enum ⟨.zero, "Shade", [⟨"Dark", .unit⟩, ⟨"Light", .unit⟩], []⟩]

/-- The aliases of the chain have no cycle. -/
theorem aliasedChain_acyclic : (Registry.ofProgram aliasedChain).Acyclic := by
  refine Registry.acyclic_of_rank (fun name => if name = "Pair" then 1 else 0) ?_
  rintro a b ⟨target, ha, hb⟩
  obtain ⟨d, hd, _, rfl, rfl⟩ := Registry.aliasDecl?_of_alias? ha
  obtain rfl := List.mem_singleton.1 hd
  obtain rfl := List.mem_singleton.1 hb
  decide

/-- The closure of a chain of structures through an alias is the least closed set. -/
theorem aliasedChain_copyClosure_least :
    (Registry.ofProgram aliasedChain).Acyclic ∧
      IsLeast {names | aliasedChain.CopyClosed names} {"Inner", "Outer", "Shade"} := by
  refine ⟨aliasedChain_acyclic, ?_⟩
  obtain ⟨_, least, hleast, _, _, _, hconv, _, _⟩ :=
    aliasedChain.copyClosure_least aliasedChain_acyclic 3
  have hnames : (aliasedChain.closureEnd 3).1.set.names = ["Outer", "Inner", "Shade"] := by
    decide +kernel
  rw [copyClosure_outcome, toFinset_copyable, hnames] at hconv
  obtain rfl := hconv.1 (by decide +kernel)
  simpa [Finset.insert_comm] using hleast

end Program

end Oxidize
