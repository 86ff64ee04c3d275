import Mathlib.Logic.Relation
import Oxidize.Duplicable.CopySet

/-!
# How deep a type expands

Where no alias contains itself, the complete expansion of a type is a finite tree. `Ty.ExpandsWithin`
bounds its depth in type constructors, and `Registry.Acyclic.expandsWithin` shows that
`Registry.expansionBound` is such a bound: on the way down from the top of a type every alias is
passed at most once. A check of a type that expands within `n` layers is answered after `n + 1` of
them (`CopySet.admitsWithin_isSome`), although every layer expands aliases anew and an expansion
stops after `Registry.maxAliasDepth` layers.
-/

namespace Oxidize

/-! ## Aliases that contain other names -/

namespace Ty

mutual

/-- The names that occur in a type. -/
def mentions : Ty → List String
  | .prim _ => []
  | .aggregate name | .enum name => [name]
  | .seq inner | .optional inner | .ref inner _ => inner.mentions
  | .tuple elems => mentionsList elems
  | .fn params ret => mentionsList params ++ ret.mentions

/-- The names that occur in types. -/
def mentionsList : List Ty → List String
  | [] => []
  | t :: ts => t.mentions ++ mentionsList ts

end

end Ty

namespace Registry

/-- The declaration that tells what an alias stands for. -/
def aliasDecl? (r : Registry) (name : String) : Option AliasDecl :=
  findLast? (·.name == name) r.aliases

/-- The declaration of an alias has its name. -/
theorem name_of_aliasDecl? {r : Registry} {name : String} {d : AliasDecl}
    (h : r.aliasDecl? name = some d) : d.name = name :=
  eq_of_beq (List.find?_some (p := fun d : AliasDecl => d.name == name) h)

/-- What an alias stands for is said by its declaration. -/
theorem aliasDecl?_of_alias? {r : Registry} {name : String} {target : Ty}
    (h : r.alias? name = some target) :
    ∃ d ∈ r.aliases, r.aliasDecl? name = some d ∧ d.name = name ∧ d.target = target := by
  obtain ⟨d, hd, rfl⟩ := Option.map_eq_some_iff.1 h
  exact ⟨d, List.mem_reverse.1 (List.mem_of_find?_eq_some hd), hd, name_of_aliasDecl? hd, rfl⟩

/-- The alias `a` stands for a type in which the name `b` occurs. -/
def AliasStep (r : Registry) (a b : String) : Prop :=
  ∃ target, r.alias? a = some target ∧ b ∈ target.mentions

/-- No alias contains itself, not through other aliases either. -/
def Acyclic (r : Registry) : Prop :=
  ∀ name, ¬ Relation.TransGen r.AliasStep name name

/-- Aliases that only contain names of lower rank do not contain themselves. -/
theorem acyclic_of_rank {r : Registry} (rank : String → Nat)
    (h : ∀ a b, r.AliasStep a b → rank b < rank a) : r.Acyclic := by
  have hlt : ∀ a b, Relation.TransGen r.AliasStep a b → rank b < rank a := by
    intro a b hab
    induction hab with
    | single hstep => exact h _ _ hstep
    | tail _ hstep ih => exact Nat.lt_trans (h _ _ hstep) ih
  exact fun name hcycle => Nat.lt_irrefl _ (hlt name name hcycle)

end Registry

/-! ## Depth of the complete expansion -/

/-- The type with all its aliases expanded is at most that many constructors deep. -/
inductive Ty.ExpandsWithin (r : Registry) : Nat → Ty → Prop where
  | prim {n : Nat} (p : Prim) : ExpandsWithin r n (.prim p)
  | aggregate {n : Nat} {name : String}
      (h : ∀ target, r.alias? name = some target → ExpandsWithin r n target) :
    ExpandsWithin r n (.aggregate name)
  | enum {n : Nat} {name : String}
      (h : ∀ target, r.alias? name = some target → ExpandsWithin r n target) :
    ExpandsWithin r n (.enum name)
  | seq {n : Nat} {elem : Ty} (h : ExpandsWithin r n elem) : ExpandsWithin r (n + 1) (.seq elem)
  | tuple {n : Nat} {elems : List Ty} (h : ∀ e ∈ elems, ExpandsWithin r n e) :
    ExpandsWithin r (n + 1) (.tuple elems)
  | optional {n : Nat} {inner : Ty} (h : ExpandsWithin r n inner) :
    ExpandsWithin r (n + 1) (.optional inner)
  | ref {n : Nat} {inner : Ty} {mutable : Bool} (h : ExpandsWithin r n inner) :
    ExpandsWithin r (n + 1) (.ref inner mutable)
  | fn {n : Nat} {params : List Ty} {ret : Ty} (hp : ∀ t ∈ params, ExpandsWithin r n t)
      (hr : ExpandsWithin r n ret) : ExpandsWithin r (n + 1) (.fn params ret)

namespace Ty

variable {r : Registry}

/-- What is at most so deep is at most deeper. -/
theorem ExpandsWithin.mono {n m : Nat} {t : Ty} (h : ExpandsWithin r n t) (hle : n ≤ m) :
    ExpandsWithin r m t := by
  induction h generalizing m with
  | prim p => exact .prim p
  | aggregate _ ih => exact .aggregate fun target ha => ih target ha hle
  | enum _ ih => exact .enum fun target ha => ih target ha hle
  | seq _ ih =>
    obtain ⟨m, rfl⟩ := Nat.exists_eq_add_of_le' hle
    exact .seq (ih (Nat.le_add_left _ _))
  | tuple _ ih =>
    obtain ⟨m, rfl⟩ := Nat.exists_eq_add_of_le' hle
    exact .tuple fun e he => ih e he (Nat.le_add_left _ _)
  | optional _ ih =>
    obtain ⟨m, rfl⟩ := Nat.exists_eq_add_of_le' hle
    exact .optional (ih (Nat.le_add_left _ _))
  | ref _ ih =>
    obtain ⟨m, rfl⟩ := Nat.exists_eq_add_of_le' hle
    exact .ref (ih (Nat.le_add_left _ _))
  | fn _ _ ihp ihr =>
    obtain ⟨m, rfl⟩ := Nat.exists_eq_add_of_le' hle
    exact .fn (fun t ht => ihp t ht (Nat.le_add_left _ _)) (ihr (Nat.le_add_left _ _))

mutual

/-- A type expands as deep as it is and as the aliases in it expand. -/
theorem expandsWithin_depth {k : Nat} : (t : Ty) →
    (∀ name ∈ t.mentions, ∀ target, r.alias? name = some target → ExpandsWithin r k target) →
    ExpandsWithin r (t.depth + k) t
  | .prim p, _ => .prim p
  | .aggregate name, h => by
    rw [depth, Nat.zero_add]
    exact .aggregate (h name (by simp [mentions]))
  | .enum name, h => by
    rw [depth, Nat.zero_add]
    exact .enum (h name (by simp [mentions]))
  | .seq elem, h => by
    rw [depth, Nat.add_right_comm]
    exact .seq (expandsWithin_depth elem h)
  | .tuple elems, h => by
    rw [depth, Nat.add_right_comm]
    exact .tuple (expandsWithin_depthList elems h)
  | .optional inner, h => by
    rw [depth, Nat.add_right_comm]
    exact .optional (expandsWithin_depth inner h)
  | .ref inner _, h => by
    rw [depth, Nat.add_right_comm]
    exact .ref (expandsWithin_depth inner h)
  | .fn params ret, h => by
    rw [depth, Nat.add_right_comm]
    refine .fn (fun t ht => ?_) ?_
    · exact (expandsWithin_depthList params
        (fun name hn => h name (by simp [mentions, hn])) t ht).mono (by omega)
    · exact (expandsWithin_depth ret
        (fun name hn => h name (by simp [mentions, hn]))).mono (by omega)

/-- Types expand as deep as the deepest of them is and as the aliases in them expand. -/
theorem expandsWithin_depthList {k : Nat} : (ts : List Ty) →
    (∀ name ∈ mentionsList ts, ∀ target, r.alias? name = some target →
      ExpandsWithin r k target) →
    ∀ t ∈ ts, ExpandsWithin r (depthList ts + k) t
  | [], _ => nofun
  | t :: ts, h => by
    rw [depthList, List.forall_mem_cons]
    refine ⟨?_, fun u hu => ?_⟩
    · exact (expandsWithin_depth t
        (fun name hn => h name (by simp [mentionsList, hn]))).mono (by omega)
    · exact (expandsWithin_depthList ts
        (fun name hn => h name (by simp [mentionsList, hn])) u hu).mono (by omega)

end

end Ty

namespace Registry

variable {r : Registry}

/-- How deep the targets of aliases are together. -/
def totalDepth (ds : List AliasDecl) : Nat :=
  ds.foldr (fun d sum => d.target.depth + sum) 0

/-- The depth of all targets is that of one and of the others. -/
theorem totalDepth_erase {d : AliasDecl} {ds : List AliasDecl} (h : d ∈ ds) :
    totalDepth ds = d.target.depth + totalDepth (ds.erase d) := by
  induction ds with
  | nil => exact nomatch h
  | cons e ds ih =>
    by_cases hed : e = d
    · rw [hed, List.erase_cons_head]
      rfl
    · have hd : d ∈ ds := (List.mem_cons.1 h).resolve_left (Ne.symm hed)
      rw [List.erase_cons_tail (by simpa using hed)]
      have := ih hd
      simp only [totalDepth, List.foldr_cons] at this ⊢
      omega

open Relation in
/-- An alias expands as deep as the targets of the aliases that can be met below it, itself
included, are together. -/
theorem Acyclic.alias_expandsWithin (hr : r.Acyclic) (met : List AliasDecl) {name : String}
    {target : Ty} (ha : r.alias? name = some target)
    (hmet : ∀ other d, ReflTransGen r.AliasStep name other → r.aliasDecl? other = some d →
      d ∈ met) :
    target.ExpandsWithin r (totalDepth met) := by
  -- Below the target its own alias is not met again, so one declaration fewer remains.
  induction hn : met.length generalizing met name target with
  | zero =>
    obtain ⟨d, _, hd, _, _⟩ := aliasDecl?_of_alias? ha
    have hmem := hmet name d .refl hd
    rw [List.eq_nil_of_length_eq_zero hn] at hmem
    exact nomatch hmem
  | succ n ih =>
    obtain ⟨d, _, hd, hname, rfl⟩ := aliasDecl?_of_alias? ha
    have hmem : d ∈ met := hmet name d .refl hd
    rw [totalDepth_erase hmem]
    refine Ty.expandsWithin_depth d.target fun inner hinner innerTarget hi => ?_
    have hstep : r.AliasStep name inner := ⟨d.target, ha, hinner⟩
    refine ih (met.erase d) hi (fun other e hother he => ?_) ?_
    · have hne : e ≠ d := by
        rintro rfl
        obtain rfl : name = other := hname.symm.trans (name_of_aliasDecl? he)
        exact hr name (.head' hstep hother)
      exact (List.mem_erase_of_ne hne).2 (hmet other e (.head hstep hother) he)
    · rw [List.length_erase_of_mem hmem, hn, Nat.add_sub_cancel]

/-- Where no alias contains itself, one layer fewer than the bound holds the complete expansion. -/
theorem Acyclic.expandsWithin (hr : r.Acyclic) (t : Ty) :
    t.ExpandsWithin r (t.depth + totalDepth r.aliases) := by
  refine Ty.expandsWithin_depth t fun name _ target ha => ?_
  refine hr.alias_expandsWithin r.aliases ha fun other d _ hd => ?_
  exact List.mem_reverse.1 (List.mem_of_find?_eq_some hd)

/-- Expanding the first layers of aliases makes the complete expansion no deeper. -/
theorem normalizeWithin_expandsWithin {k : Nat} (n : Nat) {t : Ty} (h : t.ExpandsWithin r k) :
    (r.normalizeWithin n t).ExpandsWithin r k := by
  induction n generalizing k t with
  | zero => exact h
  | succ n ih =>
    have hname : ∀ name,
        (∀ target, r.alias? name = some target → target.ExpandsWithin r k) →
        (r.normalizeWithin (n + 1) (.aggregate name)).ExpandsWithin r k := by
      intro name h
      simp only [normalizeWithin]
      split
      next target ha => exact ih (h target ha)
      next ha =>
        split
        · exact .enum h
        · exact .aggregate h
    cases h with
    | prim p => exact .prim p
    | aggregate h => exact hname _ h
    | enum h => exact hname _ h
    | seq h => exact .seq (ih h)
    | tuple h => exact .tuple (List.forall_mem_map.2 fun e he => ih (h e he))
    | optional h => exact .optional (ih h)
    | ref h => exact .ref (ih h)
    | fn hp hr => exact .fn (List.forall_mem_map.2 fun t ht => ih (hp t ht)) (ih hr)

end Registry

/-! ## The check of a type -/

namespace CopySet

/-- A check of types gets an answer if the checks of each do. -/
theorem allWithin_isSome {check : Ty → Option Bool} {ts : List Ty}
    (h : ∀ t ∈ ts, (check t).isSome) : (allWithin check ts).isSome := by
  induction ts with
  | nil => rfl
  | cons t ts ih =>
    obtain ⟨answer, ha⟩ := Option.isSome_iff_exists.1 (h t List.mem_cons_self)
    cases answer with
    | true => simpa [allWithin, ha] using ih fun u hu => h u (List.mem_cons_of_mem t hu)
    | false => simp [allWithin, ha]

/-- A check of types succeeds exactly if the checks of each do. -/
theorem allWithin_eq_some_true {check : Ty → Option Bool} {ts : List Ty} :
    allWithin check ts = some true ↔ ∀ t ∈ ts, check t = some true := by
  induction ts with
  | nil => simp [allWithin]
  | cons t ts ih =>
    rw [List.forall_mem_cons, ← ih]
    cases h : check t with
    | none => simp [allWithin, h]
    | some answer => cases answer <;> simp [allWithin, h]

/-- Expanding the first layers of a type does not make it deeper. -/
theorem normalized_expandsWithin {r : Registry} (names : List String) {n : Nat} {t : Ty}
    (h : t.ExpandsWithin r n) :
    ((⟨names, some r⟩ : CopySet).normalized t).ExpandsWithin r n :=
  Registry.normalizeWithin_expandsWithin _ h

/-- One layer more than a type expands to answers the check of the type. -/
theorem admitsWithin_isSome {r : Registry} (names : List String) {n : Nat} {t : Ty}
    (h : t.ExpandsWithin r n) :
    ((⟨names, some r⟩ : CopySet).admitsWithin (n + 1) t).isSome := by
  induction n generalizing t with
  | zero =>
    have hnorm := normalized_expandsWithin names h
    rw [admitsWithin]
    generalize (⟨names, some r⟩ : CopySet).normalized t = u at hnorm
    cases hnorm <;> rfl
  | succ n ih =>
    have hnorm := normalized_expandsWithin names h
    rw [admitsWithin]
    generalize (⟨names, some r⟩ : CopySet).normalized t = u at hnorm
    cases hnorm with
    | tuple h => exact allWithin_isSome fun e he => ih (h e he)
    | optional h => exact ih h
    | _ => rfl

/-- Where no alias contains itself, the bound on the layers answers the check of every type. -/
theorem admitsWithin_expansionBound_isSome {r : Registry} (hr : r.Acyclic) (names : List String)
    (t : Ty) :
    ((⟨names, some r⟩ : CopySet).admitsWithin (r.expansionBound t) t).isSome :=
  admitsWithin_isSome names (hr.expandsWithin t)

/-- A set that holds more names admits more types. -/
theorem admitsWithin_mono {s s' : CopySet} (hr : s.registry = s'.registry)
    (hn : s.names ⊆ s'.names) {n : Nat} {t : Ty} (h : s.admitsWithin n t = some true) :
    s'.admitsWithin n t = some true := by
  induction n generalizing t with
  | zero => exact h
  | succ n ih =>
    rw [admitsWithin] at h ⊢
    rw [show s'.normalized t = s.normalized t by rw [normalized, normalized, hr]]
    generalize s.normalized t = u at h
    cases u with
    | aggregate name | enum name =>
      simp only [Option.some.injEq, contains, List.contains_iff_mem] at h ⊢
      exact hn h
    | tuple elems =>
      rw [allWithin_eq_some_true] at h ⊢
      exact fun e he => ih (h e he)
    | optional inner => exact ih h
    | _ => exact h

/-- A type is admitted exactly if the check within the bound says so. -/
theorem admits_eq_true {s : CopySet} {t : Ty} :
    s.admits t = true ↔ s.admitsWithin (s.callBound t) t = some true := by
  rw [admits]
  cases s.admitsWithin (s.callBound t) t <;> simp

/-- What a set admits is admitted by every larger one. -/
theorem admits_mono {s s' : CopySet} (hr : s.registry = s'.registry) (hn : s.names ⊆ s'.names)
    {t : Ty} (h : s.admits t = true) : s'.admits t = true := by
  rw [admits_eq_true] at h ⊢
  rw [callBound, expansionBound, ← hr]
  exact admitsWithin_mono hr hn h

end CopySet

end Oxidize
