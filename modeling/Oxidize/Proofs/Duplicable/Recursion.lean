import Oxidize.Proofs.Duplicable.Tags
import Oxidize.Proofs.Duplicable.ValueCycles

/-!
# Aggregates without a finite size are never duplicable

The search for value cycles expands the type of a field once; the check of a field expands anew at
every layer. What the first finds to be held by value, the second asks for: expanding again keeps an
aggregate that is held (`Registry.mem_heldNames_normalizeWithin`), so a field is admitted only by a
set that has all the aggregates it holds (`CopySet.mem_of_admitsWithin`).

An aggregate from which a value cycle is reached holds another such aggregate
(`Program.HoldsCycle.exists_holds`). So none of them can be the first to be promoted: the
declarations that reach no cycle are closed under promotion, and the closure stays within them.
-/

namespace Oxidize

open Relation

/-! ## What a field holds and what it needs -/

/-- The names that types hold are those that one of them holds. -/
theorem Ty.mem_heldNamesList {name : String} {ts : List Ty} :
    name ∈ heldNamesList ts ↔ ∃ t ∈ ts, name ∈ t.heldNames := by
  induction ts with
  | nil => simp [heldNamesList]
  | cons t ts ih => simp [heldNamesList, ih]

/-- Expanding aliases keeps the aggregates that a type holds already. -/
theorem Registry.mem_heldNames_normalizeWithin {r : Registry} {name : String}
    (halias : r.alias? name = none) (henum : r.isEnum name = false) (n : Nat) {t : Ty}
    (h : name ∈ t.heldNames) : name ∈ (r.normalizeWithin n t).heldNames := by
  induction n generalizing t with
  | zero => exact h
  | succ n ih =>
    cases t with
    | aggregate other =>
      obtain rfl : name = other := by simpa [Ty.heldNames] using h
      simp [normalizeWithin, halias, henum, Ty.heldNames]
    | tuple elems =>
      rw [Ty.heldNames, Ty.mem_heldNamesList] at h
      obtain ⟨e, he, h⟩ := h
      rw [normalizeWithin, Ty.heldNames, Ty.mem_heldNamesList]
      exact ⟨_, List.mem_map_of_mem he, ih h⟩
    | optional inner => exact ih h
    | _ => simp [Ty.heldNames] at h

/-- A field is admitted only by a set that has every aggregate the field holds. -/
theorem CopySet.mem_of_admitsWithin {set : CopySet} {r : Registry} (hr : set.registry = some r)
    {name : String} (halias : r.alias? name = none) (henum : r.isEnum name = false) {n : Nat}
    {t : Ty} (hadmits : set.admitsWithin n t = some true)
    (hheld : name ∈ (r.normalize t).heldNames) : name ∈ set.names := by
  have hnorm : ∀ t, set.normalized t = r.normalize t := fun t => by rw [normalized, hr]
  induction n generalizing t with
  | zero => cases hadmits
  | succ n ih =>
    rw [admitsWithin, hnorm] at hadmits
    -- A component is expanded again, and still holds the aggregate.
    have hstep : ∀ {t : Ty}, set.admitsWithin n t = some true → name ∈ t.heldNames →
        name ∈ set.names := fun hadmits hheld =>
      ih hadmits (r.mem_heldNames_normalizeWithin halias henum _ hheld)
    generalize r.normalize t = u at hadmits hheld
    cases u with
    | aggregate other =>
      obtain rfl : name = other := by simpa [Ty.heldNames] using hheld
      simpa [contains] using hadmits
    | tuple elems =>
      rw [Ty.heldNames, Ty.mem_heldNamesList] at hheld
      obtain ⟨e, he, hheld⟩ := hheld
      exact hstep (allWithin_eq_some_true.1 hadmits e he) hheld
    | optional inner => exact hstep hadmits hheld
    | _ => simp [Ty.heldNames] at hheld

namespace Program

variable {p : Program} {name : String}

/-! ## Aggregates that reach a cycle -/

/-- Through fields that hold aggregates by value one comes to a member of a value cycle. -/
def HoldsCycle (p : Program) (name : String) : Prop :=
  ∃ group ∈ p.valueCycles, ∃ member ∈ group, ReflTransGen p.HoldsByValue name member

/-- The cycles that are found are cycles of values. -/
theorem isValueCycle_of_mem (hp : (p.structs.map (·.name)).Nodup) {group : List String}
    (h : group ∈ p.valueCycles) : p.IsValueCycle group := by
  obtain ⟨groups, hgroups, hmem, _⟩ := valueCycles?_eq hp
  rw [valueCycles, hgroups] at h
  exact (hmem group).1 h

/-- From a member of a value cycle one comes back to some member of it. -/
theorem IsValueCycle.exists_holds {group : List String} (h : p.IsValueCycle group)
    (hname : name ∈ group) :
    ∃ other, p.HoldsByValue name other ∧
      ∃ member ∈ group, ReflTransGen p.HoldsByValue other member := by
  obtain ⟨hsorted, a, _, hclass, hcyclic⟩ := h
  have haway : ∀ b ∈ group, b ≠ name → ∃ other, p.HoldsByValue name other ∧
      ∃ member ∈ group, ReflTransGen p.HoldsByValue other member := by
    intro b hb hne
    have hpath : ReflTransGen p.HoldsByValue name b :=
      ((hclass name).1 hname).2.trans ((hclass b).1 hb).1
    rcases hpath.cases_head with heq | ⟨other, hholds, hrest⟩
    · exact absurd heq.symm hne
    · exact ⟨other, hholds, b, hb, hrest⟩
  have ha : a ∈ group := (hclass a).2 ⟨.refl, .refl⟩
  by_cases hne : a = name
  · subst hne
    rcases hcyclic with hlen | hself
    · obtain ⟨b, hb, hne⟩ : ∃ b ∈ group, b ≠ a := by
        by_contra hall
        push Not at hall
        have hnodup : group.Nodup := hsorted.imp ne_of_lt
        have := (List.nodup_replicate.1 (List.eq_replicate_of_mem hall ▸ hnodup))
        omega
      exact haway b hb hne
    · exact ⟨a, hself, a, ha, .refl⟩
  · exact haway a ha hne

/-- An aggregate that reaches a value cycle holds one that does. -/
theorem HoldsCycle.exists_holds (hp : (p.structs.map (·.name)).Nodup) (h : p.HoldsCycle name) :
    ∃ other, p.HoldsByValue name other ∧ p.HoldsCycle other := by
  obtain ⟨group, hgroup, member, hmember, hpath⟩ := h
  rcases hpath.cases_head with rfl | ⟨other, hholds, hrest⟩
  · obtain ⟨other, hholds, hcycle⟩ := (isValueCycle_of_mem hp hgroup).exists_holds hmember
    exact ⟨other, hholds, group, hgroup, hcycle⟩
  · exact ⟨other, hholds, group, hgroup, member, hmember, hrest⟩

/-! ## Distinct names -/

/-- No two aggregates, enums and aliases share a name. -/
def DistinctNames (p : Program) : Prop :=
  (p.structs.map (·.name) ++ (p.enums.map (·.name) ++ p.aliases.map (·.name))).Nodup

instance (p : Program) : Decidable p.DistinctNames :=
  inferInstanceAs (Decidable (List.Nodup _))

namespace DistinctNames

variable (hp : p.DistinctNames)
include hp

/-- No two aggregates share a name. -/
theorem structs : (p.structs.map (·.name)).Nodup :=
  (List.nodup_append.1 hp).1

/-- No enum shares a name with an aggregate. -/
theorem enum_ne {s : StructDecl} (hs : s ∈ p.structs) {e : EnumDecl} (he : e ∈ p.enums) :
    e.name ≠ s.name := fun h =>
  (List.nodup_append.1 hp).2.2 _ (List.mem_map_of_mem hs) _
    (List.mem_append_left _ (List.mem_map_of_mem he)) h.symm

/-- The name of an aggregate is no alias. -/
theorem alias?_eq_none {s : StructDecl} (hs : s ∈ p.structs) :
    (Registry.ofProgram p).alias? s.name = none := by
  refine Option.eq_none_iff_forall_ne_some.2 fun target h => ?_
  obtain ⟨a, ha, _, hname, _⟩ := Registry.aliasDecl?_of_alias? h
  exact (List.nodup_append.1 hp).2.2 _ (List.mem_map_of_mem hs) _
    (List.mem_append_right _ (List.mem_map_of_mem ha)) hname.symm

/-- The name of an aggregate is that of no enum. -/
theorem isEnum_eq_false {s : StructDecl} (hs : s ∈ p.structs) :
    (Registry.ofProgram p).isEnum s.name = false := by
  rw [Registry.isEnum, Option.isSome_eq_false_iff, Option.isNone_iff_eq_none, Registry.enum?,
    findLast?, List.find?_eq_none]
  intro e he
  simpa using hp.enum_ne hs (List.mem_reverse.1 he)

/-- Aggregates of the same name are the same. -/
theorem eq_of_name {s t : StructDecl} (hs : s ∈ p.structs) (ht : t ∈ p.structs)
    (h : s.name = t.name) : s = t :=
  List.inj_on_of_nodup_map hp.structs hs ht h

/-- An aggregate is admitted only by a set that has every aggregate it holds. -/
theorem mem_of_admittedBy {s : StructDecl} (hs : s ∈ p.structs) {names : List String}
    (hadmitted : s.AdmittedBy (p.copySet names)) (hholds : p.HoldsByValue s.name name) :
    name ∈ names := by
  obtain ⟨⟨t, ht, hname, f, hf, hheld⟩, target, htarget, rfl⟩ := hholds
  obtain rfl := hp.eq_of_name ht hs hname
  exact CopySet.mem_of_admitsWithin rfl (hp.alias?_eq_none htarget) (hp.isEnum_eq_false htarget)
    (CopySet.admits_eq_true.1 (hadmitted f hf)) hheld

end DistinctNames

/-! ## The declarations that reach no cycle -/

open Classical in
/-- The aggregates and enums that reach no value cycle. -/
noncomputable def cycleFree (p : Program) : Finset String :=
  (p.structs.map (·.name) ++ p.enums.map (·.name)).toFinset.filter (¬ p.HoldsCycle ·)

/-- What is free of cycles is an aggregate or an enum that reaches none. -/
theorem mem_cycleFree : name ∈ p.cycleFree ↔
    name ∈ p.structs.map (·.name) ++ p.enums.map (·.name) ∧ ¬ p.HoldsCycle name := by
  simp only [cycleFree, Finset.mem_filter, List.mem_toFinset]

/-- The names that reach no cycle are closed under promotion if no aggregate is tagged by itself. -/
theorem copyClosed_cycleFree (hp : p.DistinctNames) (hcopy : ∀ s ∈ p.structs, s.hasCopy = false) :
    p.CopyClosed p.cycleFree where
  seeds := by
    rintro _ (⟨e, he, _, rfl⟩ | ⟨s, hs, hseed, _⟩)
    · refine mem_cycleFree.2 ⟨List.mem_append_right _ (List.mem_map_of_mem he), fun hcycle => ?_⟩
      obtain ⟨_, ⟨⟨s, hs, hname, _⟩, _⟩, _⟩ := hcycle.exists_holds hp.structs
      exact hp.enum_ne hs he hname.symm
    · exact absurd hseed (by simp [hcopy s hs])
  aggregates s hs hadmitted := by
    refine mem_cycleFree.2 ⟨List.mem_append_left _ (List.mem_map_of_mem hs), fun hcycle => ?_⟩
    obtain ⟨other, hholds, hother⟩ := hcycle.exists_holds hp.structs
    have hmem := hp.mem_of_admittedBy hs hadmitted hholds
    exact (mem_cycleFree.1 (Finset.mem_toList.1 hmem)).2 hother

/-- **An aggregate that reaches a value cycle is never duplicable.** Where names are distinct and no
aggregate is tagged beforehand, no number of passes finds the members of a value cycle, or an
aggregate that holds one of them through any number of fields, to be duplicable or tags them. -/
theorem copyClosure_spares_cycles (p : Program) (hp : p.DistinctNames)
    (hcopy : ∀ s ∈ p.structs, s.hasCopy = false) (cap : Nat) (name : String)
    (hcycle : p.HoldsCycle name) :
    name ∉ (p.copyClosure cap).value.2.copyable ∧
      ∀ s ∈ (p.copyClosure cap).value.1.structs, s.name = name → s.hasCopy = false := by
  have hset : name ∉ (p.closureEnd cap).1.set.names := fun hmem => by
    have hfree := p.closureEnd_subset cap (copyClosed_cycleFree hp hcopy) (List.mem_toFinset.2 hmem)
    exact (mem_cycleFree.1 hfree).2 hcycle
  refine ⟨fun hmem => hset (p.mem_copyable.1 hmem), ?_⟩
  rintro s hs rfl
  obtain ⟨d, hd, hstruct⟩ := List.mem_filterMap.1 hs
  by_contra htag
  -- A tagged aggregate is in the set, since the tags are all that a run leaves behind.
  refine hset (((p.closureEnd_tagged cap).seeds s.name).2 (List.mem_filterMap.2 ⟨d, hd, ?_⟩))
  cases d with
  | struct t =>
    cases hstruct
    simp [Decl.seed?, htag]
  | _ => cases hstruct

/-- Two aggregates that hold each other, one of them through an alias, an aggregate that holds the
first, and one that holds a number. -/
def ringBehindAlias : Program where
  decls := [
    .alias ⟨.zero, "Link", .optional (.aggregate "B")⟩,
    .struct ⟨.zero, "A", [⟨"link", .tuple [.f64, .aggregate "Link"]⟩], []⟩,
    .struct ⟨.zero, "B", [⟨"a", .aggregate "A"⟩], ["Clone"]⟩,
    .struct ⟨.zero, "Outer", [⟨"a", .aggregate "A"⟩, ⟨"n", .aggregate "Number"⟩], []⟩,
    .struct ⟨.zero, "Number", [⟨"x", .f64⟩], []⟩,
    .enum ⟨.zero, "Shade", [⟨"Dark", .unit⟩], []⟩]

/-- The outer aggregate is spared with the ring that it reaches, and the number is not. -/
theorem ringBehindAlias_outer :
    ringBehindAlias.DistinctNames ∧ (∀ s ∈ ringBehindAlias.structs, s.hasCopy = false) ∧
      ringBehindAlias.HoldsCycle "Outer" ∧
      "Outer" ∉ (ringBehindAlias.copyClosure 64).value.2.copyable ∧
      "Number" ∈ (ringBehindAlias.copyClosure 64).value.2.copyable := by
  have hnames : ringBehindAlias.DistinctNames := by decide
  have hcopy : ∀ s ∈ ringBehindAlias.structs, s.hasCopy = false := by decide
  have hcycles : ringBehindAlias.valueGraph.cycles? = some [[1, 0]] := by decide +kernel
  have hgroup : ["A", "B"] ∈ ringBehindAlias.valueCycles := by
    have hring : ringBehindAlias.groupOf [1, 0] = ["A", "B"] := by
      rw [groupOf, List.mergeSort_eq_insertionSort]
      decide
    rw [valueCycles, valueCycles?_of_cycles hcycles (by decide), Option.getD_some,
      List.mem_mergeSort, List.map_cons, hring]
    exact List.mem_cons_self
  have hholds : ringBehindAlias.HoldsByValue "Outer" "A" :=
    ⟨⟨_, .tail _ (.tail _ (.head _)), rfl, _, .head _, by decide⟩, _, .head _, rfl⟩
  have hcycle : ringBehindAlias.HoldsCycle "Outer" :=
    ⟨_, hgroup, "A", .head _, .single hholds⟩
  have hnumber : "Number" ∈ (ringBehindAlias.closureEnd 64).1.set.names := by decide +kernel
  exact ⟨hnames, hcopy, hcycle, (copyClosure_spares_cycles _ hnames hcopy 64 _ hcycle).1,
    ringBehindAlias.mem_copyable.2 hnumber⟩

end Program

end Oxidize
