import Oxidize.Builtin.Dispatch
import Oxidize.Proofs.Duplicable.Expansion

/-!
# Types whose aliases expand

A type is expanded `Registry.maxAliasDepth` layers deep, and what lies below keeps its aliases.
`Ty.Expands` says that nothing is left below. It is stable: expanding such a type only some layers
deep gives such a type again (`Ty.ExpandsIn.normalizeWithin`), and so do the steps from a type to
the layer below it. What type resolution builds from such types is `Ty.PartsExpand`. A second
expansion of one of these changes neither the builtin that a method on it means
(`Dispatch.onValue?_normalize`) nor the name it goes by (`Ty.nominalName?_normalize`).
-/

namespace Oxidize

/-! ## One layer of a type -/

namespace Registry

variable (r : Registry)

/-- What an alias stands for, of a type that is the name of one. -/
def aliasOf? : Ty → Option Ty
  | .aggregate name | .enum name => r.alias? name
  | _ => none

/-- The types one layer below: the target of an alias, or what a type constructor is applied to. -/
def layer : Ty → List Ty
  | .prim _ => []
  | .aggregate name | .enum name => (r.alias? name).toList
  | .seq inner | .optional inner | .ref inner _ => [inner]
  | .tuple elems => elems
  | .fn params ret => params ++ [ret]

/-- What aliases stand for depends on their declarations only. -/
theorem aliasOf?_congr {r r' : Registry} (h : r'.aliases = r.aliases) :
    r'.aliasOf? = r.aliasOf? := by
  funext t
  cases t <;> simp [aliasOf?, alias?, h]

variable {r}

/-- The layer below the name of an alias is the target. -/
theorem layer_of_aliasOf? {t target : Ty} (h : r.aliasOf? t = some target) :
    r.layer t = [target] := by
  cases t with
  | aggregate name | enum name => rw [layer, show r.alias? name = some target from h]; rfl
  | _ => cases h

/-- The expansion of the name of an alias is that of its target, with one layer less. -/
theorem normalizeWithin_of_aliasOf? {t target : Ty} (h : r.aliasOf? t = some target) (n : Nat) :
    r.normalizeWithin (n + 1) t = r.normalizeWithin n target := by
  cases t with
  | aggregate name | enum name =>
    rw [normalizeWithin, show r.alias? name = some target from h]
  | _ => cases h

/-- Below a type that is no alias, everything is expanded. -/
theorem layer_normalizeWithin {t : Ty} (h : r.aliasOf? t = none) (n : Nat) :
    r.layer (r.normalizeWithin (n + 1) t) = (r.layer t).map (r.normalizeWithin n) ∧
      r.aliasOf? (r.normalizeWithin (n + 1) t) = none := by
  cases t with
  | aggregate name | enum name =>
    have hname : r.alias? name = none := h
    rw [normalizeWithin, hname]
    dsimp only
    split <;> simp [layer, aliasOf?, hname]
  | _ => simp [normalizeWithin, layer, aliasOf?]

end Registry

/-! ## Types without aliases -/

namespace Ty

variable {r : Registry} {t u : Ty} {n : Nat}

/-- No name in the type is an alias. -/
def AliasFree (r : Registry) (t : Ty) : Prop :=
  ∀ name ∈ t.mentions, r.alias? name = none

instance : Decidable (t.AliasFree r) :=
  inferInstanceAs (Decidable (∀ name ∈ t.mentions, r.alias? name = none))

/-- The names in types are those in one of them. -/
theorem mem_mentionsList {ts : List Ty} {name : String} :
    name ∈ mentionsList ts ↔ ∃ t ∈ ts, name ∈ t.mentions := by
  induction ts with
  | nil => simp [mentionsList]
  | cons t ts ih => simp [mentionsList, ih]

/-- A type without aliases is no alias, and the types below it have none. -/
theorem aliasFree_iff : t.AliasFree r ↔ r.aliasOf? t = none ∧ ∀ u ∈ r.layer t, u.AliasFree r := by
  cases t with
  | prim p => simp [AliasFree, mentions, Registry.aliasOf?, Registry.layer]
  | aggregate name | enum name =>
    cases h : r.alias? name <;>
      simp [AliasFree, mentions, Registry.aliasOf?, Registry.layer, h]
  | seq | optional | ref => simp [AliasFree, mentions, Registry.aliasOf?, Registry.layer]
  | tuple elems =>
    simp only [AliasFree, mentions, mem_mentionsList, Registry.aliasOf?, Registry.layer]
    grind
  | fn params ret =>
    simp only [AliasFree, mentions, List.mem_append, mem_mentionsList, Registry.aliasOf?,
      Registry.layer]
    grind

/-- Expanding the first `n` layers of the type leaves no alias. -/
def ExpandsIn (r : Registry) (n : Nat) (t : Ty) : Prop :=
  (r.normalizeWithin n t).AliasFree r

/-- The type expands within the bound on the depth of aliases. -/
def Expands (r : Registry) (t : Ty) : Prop :=
  (r.normalize t).AliasFree r

instance : Decidable (t.Expands r) :=
  inferInstanceAs (Decidable ((r.normalize t).AliasFree r))

/-- A type expands in one layer more than the types below it. -/
theorem expandsIn_succ : ExpandsIn r (n + 1) t ↔ ∀ u ∈ r.layer t, ExpandsIn r n u := by
  cases h : r.aliasOf? t with
  | some target =>
    rw [ExpandsIn, Registry.normalizeWithin_of_aliasOf? h, Registry.layer_of_aliasOf? h,
      List.forall_mem_singleton, ExpandsIn]
  | none =>
    obtain ⟨hlayer, halias⟩ := Registry.layer_normalizeWithin h n
    rw [ExpandsIn, aliasFree_iff, hlayer, List.forall_mem_map]
    exact and_iff_right halias

/-- A type that expands in no layers has no alias. -/
theorem expandsIn_zero : ExpandsIn r 0 t ↔ t.AliasFree r :=
  Iff.rfl

namespace ExpandsIn

/-- A type that expands in `n` layers does so with one layer more. -/
theorem succ (h : ExpandsIn r n t) : ExpandsIn r (n + 1) t := by
  induction n generalizing t with
  | zero =>
    rw [expandsIn_succ]
    exact (aliasFree_iff.1 h).2
  | succ n ih =>
    rw [expandsIn_succ] at h ⊢
    exact fun u hu => ih (h u hu)

/-- The types below a type that expands do so in as many layers. -/
theorem of_mem_layer (h : ExpandsIn r n t) (hu : u ∈ r.layer t) : ExpandsIn r n u := by
  cases n with
  | zero => exact (aliasFree_iff.1 h).2 u hu
  | succ n => exact (expandsIn_succ.1 h u hu).succ

/-- Expanding some layers of a type leaves it no deeper. -/
theorem normalizeWithin (h : ExpandsIn r n t) (m : Nat) :
    ExpandsIn r n (r.normalizeWithin m t) := by
  induction m generalizing n t with
  | zero => exact h
  | succ m ih =>
    cases halias : r.aliasOf? t with
    | some target =>
      rw [Registry.normalizeWithin_of_aliasOf? halias]
      exact ih (h.of_mem_layer (by simp [Registry.layer_of_aliasOf? halias]))
    | none =>
      obtain ⟨hlayer, halias'⟩ := Registry.layer_normalizeWithin halias m
      cases n with
      | zero =>
        rw [expandsIn_zero, aliasFree_iff, hlayer, List.forall_mem_map]
        refine ⟨halias', ?_⟩
        exact fun u hu => ih (h.of_mem_layer hu)
      | succ n =>
        rw [expandsIn_succ, hlayer, List.forall_mem_map]
        exact fun u hu => ih (expandsIn_succ.1 h u hu)

end ExpandsIn

/-- Dropping references brings in no alias. -/
theorem AliasFree.stripRefs (h : t.AliasFree r) : t.stripRefs.AliasFree r := by
  induction t using Ty.stripRefs.induct with
  | case1 inner mutable ih => exact ih ((aliasFree_iff.1 h).2 inner (by simp [Registry.layer]))
  | case2 t hnref => rwa [Ty.stripRefs]; exact hnref

/-! ## Types built up in type resolution -/

/-- The type is built up from types that expand within the bound. Of function types nothing is
asked: they have no builtin methods, and no expression reaches into them. -/
inductive PartsExpand (r : Registry) : Ty → Prop where
  | whole {t : Ty} (h : t.Expands r) : PartsExpand r t
  | seq {elem : Ty} (h : PartsExpand r elem) : PartsExpand r (.seq elem)
  | tuple {elems : List Ty} (h : ∀ t ∈ elems, PartsExpand r t) : PartsExpand r (.tuple elems)
  | optional {inner : Ty} (h : PartsExpand r inner) : PartsExpand r (.optional inner)
  | fn (params : List Ty) (ret : Ty) : PartsExpand r (.fn params ret)

namespace PartsExpand

/-- A primitive type has nothing to expand. -/
theorem prim (p : Prim) : PartsExpand r (.prim p) :=
  .whole (List.forall_mem_nil _)

/-- The parts of a type that expands do. -/
theorem of_mem_layer (h : t.Expands r) (hu : u ∈ r.layer t) : PartsExpand r u :=
  .whole (ExpandsIn.of_mem_layer h hu)

/-- The type of the elements expands with that of the sequence. -/
theorem elem (h : PartsExpand r (.seq t)) : PartsExpand r t := by
  cases h with
  | whole h => exact of_mem_layer h (.head _)
  | seq h => exact h

/-- The types of the items expand with that of the tuple. -/
theorem elems {ts : List Ty} (h : PartsExpand r (.tuple ts)) : ∀ t ∈ ts, PartsExpand r t := by
  cases h with
  | whole h => exact fun t ht => of_mem_layer h ht
  | tuple h => exact h

/-- Dropping references keeps a type expanding. -/
theorem stripRefs (h : PartsExpand r t) : PartsExpand r t.stripRefs := by
  induction t using Ty.stripRefs.induct with
  | case1 inner mutable ih =>
    cases h with
    | whole h => exact ih (of_mem_layer h (.head _))
  | case2 t hnref => rwa [Ty.stripRefs]; exact hnref

/-- Expanding some layers keeps a type expanding. -/
theorem normalizeWithin (h : PartsExpand r t) (n : Nat) :
    PartsExpand r (r.normalizeWithin n t) := by
  induction h generalizing n with
  | whole h => exact .whole (ExpandsIn.normalizeWithin h n)
  | seq h ih =>
    cases n with
    | zero => exact .seq h
    | succ n => exact .seq (ih n)
  | tuple h ih =>
    cases n with
    | zero => exact .tuple h
    | succ n => exact .tuple (List.forall_mem_map.2 fun t ht => ih t ht n)
  | optional h ih =>
    cases n with
    | zero => exact .optional h
    | succ n => exact .optional (ih n)
  | fn params ret =>
    cases n with
    | zero => exact .fn params ret
    | succ n => exact .fn _ _

/-- Expanding a type within the bound keeps it expanding. -/
theorem normalize (h : PartsExpand r t) : PartsExpand r (r.normalize t) :=
  h.normalizeWithin _

/-- Under its references, an expanded type is no alias. -/
theorem aliasOf?_normalize (h : PartsExpand r t) :
    r.aliasOf? (r.normalize t).stripRefs = none := by
  cases h with
  | whole h => exact (aliasFree_iff.1 (AliasFree.stripRefs h)).1
  | seq | tuple | optional | fn => rfl

end PartsExpand

end Ty

/-! ## Builtins of an expanded type -/

/-- Expanding a type does not change the builtin that a method means, unless the type is the name of
an alias. -/
theorem Dispatch.onValue?_normalizeWithin {r : Registry} {t : Ty}
    (h : r.aliasOf? t.stripRefs = none) (n : Nat) (method : String) :
    onValue? (some (r.normalizeWithin n t)) method = onValue? (some t) method := by
  induction n generalizing t with
  | zero => rfl
  | succ n ih =>
    cases t with
    | ref inner mutable => exact ih h
    | aggregate name | enum name =>
      rw [Registry.normalizeWithin, show r.alias? name = none from h]
      dsimp only
      split <;> rfl
    | prim | seq | tuple | optional | fn => rfl

/-- A second expansion does not change the builtin that a method means. -/
theorem Dispatch.onValue?_normalize {r r' : Registry} (haliases : r'.aliases = r.aliases) {t : Ty}
    (h : t.PartsExpand r) (method : String) :
    onValue? (some (r'.normalize (r.normalize t))) method =
      onValue? (some (r.normalize t)) method := by
  refine onValue?_normalizeWithin ?_ _ method
  rw [Registry.aliasOf?_congr haliases]
  exact h.aliasOf?_normalize

/-- Expanding a type does not change the name it goes by, unless that is the name of an alias. -/
theorem Ty.nominalName?_normalizeWithin {r : Registry} {t : Ty}
    (h : r.aliasOf? t.stripRefs = none) (n : Nat) :
    (r.normalizeWithin n t).nominalName? = t.nominalName? := by
  induction n generalizing t with
  | zero => rfl
  | succ n ih =>
    cases t with
    | ref inner mutable => exact ih h
    | aggregate name | enum name =>
      rw [Registry.normalizeWithin, show r.alias? name = none from h]
      dsimp only
      split <;> rfl
    | prim | seq | tuple | optional | fn => rfl

/-- A second expansion does not change the name that a type goes by. -/
theorem Ty.nominalName?_normalize {r r' : Registry} (haliases : r'.aliases = r.aliases) {t : Ty}
    (h : t.PartsExpand r) :
    (r'.normalize (r.normalize t)).nominalName? = (r.normalize t).nominalName? := by
  refine nominalName?_normalizeWithin ?_ _
  rw [Registry.aliasOf?_congr haliases]
  exact h.aliasOf?_normalize

end Oxidize
