import Oxidize.Proofs.Duplicable.Answers
import Oxidize.Proofs.Typing.CompleteExpansion

/-!
# Variables and fields of a type

A variable can be read repeatedly exactly if a field of its type keeps the owner duplicable, unless
an optional stands at the top of the type or is part of a tuple there (`Ty.HoldsOptional`). The two
checks go down a type separately and expand what they come to anew at every layer. Where the type
expands within the bound, a second expansion only sorts names that the first one has not reached, so
it uncovers no optional (`Ty.AliasFree.holdsOptional_normalizeWithin`) and both checks go the same
way down. They are answered within as many layers as the expanded type has.
-/

namespace Oxidize

/-! ## Optionals -/

namespace Ty

/-- An optional stands at the top of the type, or is reached from there through tuples only. -/
inductive HoldsOptional : Ty → Prop where
  | top (inner : Ty) : HoldsOptional (.optional inner)
  | item {elems : List Ty} {t : Ty} (ht : t ∈ elems) (h : HoldsOptional t) :
    HoldsOptional (.tuple elems)

/-- A tuple holds an optional exactly if one of its items does. -/
theorem holdsOptional_tuple {elems : List Ty} :
    (Ty.tuple elems).HoldsOptional ↔ ∃ t ∈ elems, t.HoldsOptional := by
  constructor
  · intro h
    cases h with
    | item ht h => exact ⟨_, ht, h⟩
  · rintro ⟨t, ht, h⟩
    exact .item ht h

variable {r : Registry} {t : Ty}

namespace AliasFree

/-- The parts of a type without aliases have none. -/
theorem of_mem_layer {u : Ty} (h : t.AliasFree r) (hu : u ∈ r.layer t) : u.AliasFree r :=
  (aliasFree_iff.1 h).2 u hu

/-- What is expanded already expands. -/
theorem expands (h : t.AliasFree r) : t.Expands r :=
  ExpandsIn.normalizeWithin (n := 0) h (Registry.maxAliasDepth + 1)

/-- Expanding aliases where there are none hides no optional and uncovers none. -/
theorem holdsOptional_normalizeWithin (h : t.AliasFree r) (n : Nat) :
    (r.normalizeWithin n t).HoldsOptional ↔ t.HoldsOptional := by
  induction n generalizing t with
  | zero => rfl
  | succ n ih =>
    cases t with
    | aggregate name | enum name =>
      rw [Registry.normalizeWithin_of_name? rfl (aliasFree_iff.1 h).1]
      split <;> constructor <;> intro h <;> cases h
    | tuple elems =>
      simp only [Registry.normalizeWithin, holdsOptional_tuple, List.mem_map,
        exists_exists_and_eq_and]
      exact exists_congr fun e => and_congr_right fun he => ih (h.of_mem_layer he)
    | optional inner => exact ⟨fun _ => .top _, fun _ => .top _⟩
    | prim | seq | ref | fn => constructor <;> intro h <;> cases h

end AliasFree

/-! ## Depth -/

/-- Types are at most so deep exactly if each of them is. -/
theorem depthList_le_iff {ts : List Ty} {n : Nat} : depthList ts ≤ n ↔ ∀ t ∈ ts, t.depth ≤ n := by
  induction ts with
  | nil => simp [depthList]
  | cons t ts ih => rw [depthList, List.forall_mem_cons, ← ih, Nat.max_le]

/-- A type expands no deeper than what an expansion makes of it. -/
theorem ExpandsWithin.of_normalizeWithin {k n : Nat}
    (h : (r.normalizeWithin n t).ExpandsWithin r k) : t.ExpandsWithin r k := by
  induction n generalizing k t with
  | zero => exact h
  | succ n ih =>
    have hname : ∀ name target, r.alias? name = some target →
        (r.normalizeWithin (n + 1) (.aggregate name)).ExpandsWithin r k →
        target.ExpandsWithin r k := by
      intro name target ha h
      rw [Registry.normalizeWithin_of_aliasOf? (show r.aliasOf? (.aggregate name) = _ from ha)] at h
      exact ih h
    cases t with
    | prim p => exact .prim p
    | aggregate name => exact .aggregate fun target ha => hname name target ha h
    | enum name => exact .enum fun target ha => hname name target ha h
    | seq elem =>
      cases h with
      | seq h => exact .seq (ih h)
    | tuple elems =>
      cases h with
      | tuple h => exact .tuple fun e he => ih (h _ (List.mem_map_of_mem he))
    | optional inner =>
      cases h with
      | optional h => exact .optional (ih h)
    | ref inner mutable =>
      cases h with
      | ref h => exact .ref (ih h)
    | fn params ret =>
      cases h with
      | fn hp hr => exact .fn (fun t ht => ih (hp _ (List.mem_map_of_mem ht))) (ih hr)

/-- A type that expands is as deep as its expansion. -/
theorem Expands.expandsWithin (h : t.Expands r) : t.ExpandsWithin r (r.normalize t).depth := by
  refine .of_normalizeWithin (expandsWithin_depth (k := 0) (r.normalize t) ?_)
  intro name hname target ha
  rw [h name hname] at ha
  cases ha

/-- The parts of a type lie no deeper than the type expands. -/
theorem ExpandsWithin.settlesWithin {n : Nat} (h : t.ExpandsWithin r n) : t.SettlesWithin r n := by
  have hname : ∀ n name,
      (∀ target, r.alias? name = some target → target.SettlesWithin r n) →
      ∀ d, r.StandsFor name d → d.target.SettlesWithin r n := by
    intro n name h d hd
    cases hd with
    | last hdecl _ => exact h _ (congrArg (Option.map AliasDecl.target) hdecl)
    | @next _ other _ e hdecl hother hd =>
      have htarget : e.target.SettlesWithin r n :=
        h _ (congrArg (Option.map AliasDecl.target) hdecl)
      rcases eq_of_name? hother with heq | heq
      · rw [heq] at htarget
        cases htarget with
        | aggregate h => exact h d hd
      · rw [heq] at htarget
        cases htarget with
        | enum h => exact h d hd
  induction h with
  | prim p => exact .prim p
  | aggregate _ ih => exact .aggregate (hname _ _ ih)
  | enum _ ih => exact .enum (hname _ _ ih)
  | seq => exact .seq _
  | tuple _ ih => exact .tuple ih
  | optional _ ih => exact .optional ih
  | ref => exact .ref _ _
  | fn => exact .fn _ _

end Ty

namespace Registry

variable {r : Registry}

/-- The target of an alias is no deeper than all targets together. -/
theorem depth_target_le {t target : Ty} (ha : r.aliasOf? t = some target) :
    target.depth ≤ totalDepth r.aliases := by
  have halias : ∃ name, r.alias? name = some target := by
    cases t with
    | aggregate name | enum name => exact ⟨name, ha⟩
    | _ => cases ha
  obtain ⟨name, ha⟩ := halias
  obtain ⟨d, hd, -, -, rfl⟩ := aliasDecl?_of_alias? ha
  rw [totalDepth_erase hd]
  exact Nat.le_add_right _ _

/-- Expanding `n` layers makes a type at most `n` deeper than it is itself, or than a target is. -/
theorem depth_normalizeWithin_le (n : Nat) (t : Ty) :
    (r.normalizeWithin n t).depth ≤ n + max t.depth (totalDepth r.aliases) := by
  induction n generalizing t with
  | zero => rw [normalizeWithin]; omega
  | succ n ih =>
    have hlist : ∀ ts : List Ty, Ty.depthList (ts.map (r.normalizeWithin n)) ≤
        n + max (Ty.depthList ts) (totalDepth r.aliases) := by
      intro ts
      refine Ty.depthList_le_iff.2 (List.forall_mem_map.2 fun t ht => ?_)
      have htop := Ty.depthList_le_iff.1 (Nat.le_refl (Ty.depthList ts)) t ht
      have := ih t
      omega
    cases ha : r.aliasOf? t with
    | some target =>
      have := ih target
      have := depth_target_le ha
      rw [normalizeWithin_of_aliasOf? ha]
      omega
    | none =>
      cases t with
      | prim p => exact Nat.zero_le _
      | aggregate name | enum name =>
        rw [normalizeWithin_of_name? rfl ha]
        split <;> exact Nat.zero_le _
      | seq inner | optional inner | ref inner mutable =>
        have := ih inner
        simp only [normalizeWithin, Ty.depth]
        omega
      | tuple elems =>
        have := hlist elems
        simp only [normalizeWithin, Ty.depth]
        omega
      | fn params ret =>
        have := hlist params
        have := ih ret
        simp only [normalizeWithin, Ty.depth]
        omega

end Registry

namespace CopySet

variable {r : Registry} {t : Ty}

/-! ## The two checks -/

/-- A set that holds more names counts more types as duplicable. -/
theorem isDuplicableWithin_mono {s s' : CopySet} (hr : s.registry = s'.registry)
    (hn : s.names ⊆ s'.names) {n : Nat} (h : s.isDuplicableWithin n t = some true) :
    s'.isDuplicableWithin n t = some true := by
  induction n generalizing t with
  | zero => exact h
  | succ n ih =>
    rw [isDuplicableWithin] at h ⊢
    rw [show s'.normalized t = s.normalized t by rw [normalized, normalized, hr]]
    generalize s.normalized t = u at h
    cases u with
    | optional | fn => exact h
    | tuple elems =>
      rw [allWithin_eq_some_true] at h ⊢
      exact fun e he => ih (h e he)
    | _ => exact admitsWithin_mono hr hn h

/-- A type is duplicable exactly if the check within the bound says so. -/
theorem isDuplicable_eq_true {s : CopySet} :
    s.isDuplicable t = true ↔ s.isDuplicableWithin (s.callBound t) t = some true := by
  rw [isDuplicable]
  cases s.isDuplicableWithin (s.callBound t) t <;> simp

/-- What is duplicable under a set is so under every larger one. -/
theorem isDuplicable_mono {s s' : CopySet} (hr : s.registry = s'.registry)
    (hn : s.names ⊆ s'.names) (h : s.isDuplicable t = true) : s'.isDuplicable t = true := by
  rw [isDuplicable_eq_true] at h ⊢
  rw [callBound, expansionBound, ← hr]
  exact isDuplicableWithin_mono hr hn h

/-- A field of a declared type is admitted if the name of the type is held. -/
theorem admitsWithin_of_name? (names : List String) (n : Nat) {name : String}
    (ht : t.name? = some name) (ha : r.alias? name = none) :
    (⟨names, some r⟩ : CopySet).admitsWithin (n + 1) t = some (names.contains name) := by
  have hnorm : (⟨names, some r⟩ : CopySet).normalized t =
      if r.isEnum name then .enum name else .aggregate name :=
    Registry.normalizeWithin_of_name? ht ha _
  rw [admitsWithin, hnorm]
  cases r.isEnum name <;> rfl

/-- Within any number of layers, a variable is found duplicable exactly if a field is admitted and
no optional is held. -/
theorem isDuplicableWithin_iff (names : List String) (n : Nat) (h : t.Expands r) :
    (⟨names, some r⟩ : CopySet).isDuplicableWithin n t = some true ↔
      (⟨names, some r⟩ : CopySet).admitsWithin n t = some true ∧
        ¬ (r.normalize t).HoldsOptional := by
  induction n generalizing t with
  | zero => simp [isDuplicableWithin, admitsWithin]
  | succ n ih =>
    have hnorm : (⟨names, some r⟩ : CopySet).normalized t = r.normalize t := rfl
    have hfree : (r.normalize t).AliasFree r := h
    rw [isDuplicableWithin, admitsWithin, hnorm]
    generalize r.normalize t = u at hfree
    -- Only in tuples both checks go down, and there the hypothesis is about the items.
    cases u with
    | tuple elems =>
      have hitem : ∀ e ∈ elems, (⟨names, some r⟩ : CopySet).isDuplicableWithin n e = some true ↔
          (⟨names, some r⟩ : CopySet).admitsWithin n e = some true ∧ ¬ e.HoldsOptional := by
        intro e he
        have hfree' := hfree.of_mem_layer (u := e) he
        rw [ih hfree'.expands, Registry.normalize, hfree'.holdsOptional_normalizeWithin]
      rw [allWithin_eq_some_true, allWithin_eq_some_true, Ty.holdsOptional_tuple]
      constructor
      · intro hall
        refine ⟨fun e he => ((hitem e he).1 (hall e he)).1, ?_⟩
        rintro ⟨e, he, hopt⟩
        exact ((hitem e he).1 (hall e he)).2 hopt
      · rintro ⟨hall, hnone⟩ e he
        exact (hitem e he).2 ⟨hall e he, fun hopt => hnone ⟨e, he, hopt⟩⟩
    | optional inner => simpa using fun _ => Ty.HoldsOptional.top inner
    | fn params ret => simp
    | aggregate name | enum name =>
      have ha := (Ty.aliasFree_iff.1 hfree).1
      dsimp only
      rw [admitsWithin_of_name? names n rfl ha]
      refine (and_iff_left ?_).symm
      intro hopt
      cases hopt
    | prim | seq | ref =>
      refine (and_iff_left ?_).symm
      intro hopt
      cases hopt

/-- The bound on the layers of a check is greater than the depth of the expanded type. -/
theorem lt_callBound (names : List String) (r : Registry) (t : Ty) :
    (r.normalize t).depth < (⟨names, some r⟩ : CopySet).callBound t := by
  have hdepth := r.depth_normalizeWithin_le (Registry.maxAliasDepth + 1) t
  have hbound : (⟨names, some r⟩ : CopySet).callBound t =
      t.depth + Registry.totalDepth r.aliases + 1 + 0x10000000000 := rfl
  rw [hbound, Registry.normalize]
  simp only [Registry.maxAliasDepth] at hdepth ⊢
  omega

/-- **A variable is duplicable exactly if a field would be and no optional owns the value.** For a
type that expands within the bound, both checks are answered within as many layers as the expanded
type has. They differ in one way: a variable whose expanded type has an optional at the top, or
below tuples only, is not duplicable. More names never take an answer back. -/
theorem isDuplicable_iff_admits (names : List String) (r : Registry) (t : Ty) (h : t.Expands r) :
    let s : CopySet := ⟨names, some r⟩
    (∀ n, (r.normalize t).depth < n →
      s.admitsWithin n t = some (s.admits t) ∧
        s.isDuplicableWithin n t = some (s.isDuplicable t)) ∧
    (s.isDuplicable t = true ↔ s.admits t = true ∧ ¬ (r.normalize t).HoldsOptional) ∧
    ∀ more, names ⊆ more →
      let s' : CopySet := ⟨more, some r⟩
      (s.admits t = true → s'.admits t = true) ∧
        (s.isDuplicable t = true → s'.isDuplicable t = true) := by
  intro s
  refine ⟨fun n hn => ⟨?_, ?_⟩, ?_, fun more hmore => ?_⟩
  · exact admitsWithin_eq_admits (admitsWithin_isSome names h.expandsWithin)
      (lt_callBound names r t) hn
  · exact isDuplicableWithin_eq_isDuplicable
      (isDuplicableWithin_isSome names h.expandsWithin.settlesWithin) (lt_callBound names r t) hn
  · rw [isDuplicable_eq_true, admits_eq_true]
    exact isDuplicableWithin_iff names _ h
  · have hr : s.registry = (⟨more, some r⟩ : CopySet).registry := rfl
    exact ⟨admits_mono hr hmore, isDuplicable_mono hr hmore⟩

end CopySet

/-- Aliases of a pair with an optional and of one without, behind each other. -/
def Registry.nestedPairs : Registry :=
  { Registry.empty with aliases := [
      ⟨.zero, "Maybe", .optional (.aggregate "Point")⟩,
      ⟨.zero, "Mixed", .tuple [.aggregate "Point", .tuple [.aggregate "Maybe", .f64]]⟩,
      ⟨.zero, "Plain", .tuple [.aggregate "Point", .ref (.aggregate "Mixed") false]⟩] }

/-- A pair with an optional in it keeps its owner duplicable, but not a variable of its type; an
optional behind a reference does not matter. -/
theorem CopySet.nestedPairs_isDuplicable :
    let r := Registry.nestedPairs
    let s : CopySet := ⟨["Point"], some r⟩
    (Ty.aggregate "Mixed").Expands r ∧ (Ty.aggregate "Plain").Expands r ∧
      s.admits (.aggregate "Mixed") = true ∧ s.isDuplicable (.aggregate "Mixed") = false ∧
      s.isDuplicable (.aggregate "Plain") = true ∧
      (⟨["Line", "Point"], some r⟩ : CopySet).isDuplicable (.aggregate "Plain") = true := by
  intro r s
  have hmixed : (Ty.aggregate "Mixed").Expands r := Ty.PathsWithin.expands (by decide +kernel)
  have hplain : (Ty.aggregate "Plain").Expands r := Ty.PathsWithin.expands (by decide +kernel)
  obtain ⟨-, hiff, -⟩ := isDuplicable_iff_admits ["Point"] r _ hmixed
  obtain ⟨-, hiff', hmono⟩ := isDuplicable_iff_admits ["Point"] r _ hplain
  have hheld : (r.normalize (.aggregate "Mixed")).HoldsOptional :=
    .item (.tail _ (.head _)) (.item (.head _) (.top _))
  have hnone : ¬ (r.normalize (.aggregate "Plain")).HoldsOptional := by
    rintro (_ | ⟨ht, h⟩)
    rcases List.mem_pair.1 ht with rfl | rfl <;> cases h
  have hduplicable := hiff'.2 ⟨by decide +kernel, hnone⟩
  refine ⟨hmixed, hplain, by decide +kernel, ?_, hduplicable, ?_⟩
  · exact Bool.eq_false_iff.2 fun h => (hiff.1 h).2 hheld
  · exact (hmono ["Line", "Point"] (List.subset_cons_self _ _)).2 hduplicable

end Oxidize
