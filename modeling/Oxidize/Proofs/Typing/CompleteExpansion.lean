import Mathlib.Data.List.Chain
import Mathlib.Data.List.Forall2
import Oxidize.Proofs.Duplicable.Answers
import Oxidize.Proofs.Typing.AliasDepth

/-!
# The complete expansion of a type

`Ty.ExpandsTo` relates a type to its complete expansion: every alias is replaced by what it stands
for, every other name is that of an enum if it is declared so and that of an aggregate otherwise,
and the rest of the type is kept. The relation knows no bound. `Registry.normalize` does: it stops
`Registry.maxAliasDepth` layers down, and a step from an alias to its target counts as a layer.
Where no path through the expansion is longer than that (`Ty.PathsWithin`), it returns the complete
expansion (`Registry.normalize_complete`). A type that is expanded already stays as it is, however
deep it is (`Ty.IsNormal.normalizeWithin`).
-/

namespace Oxidize

/-! ## Complete expansions -/

/-- `u` is `t` with all its aliases replaced, and with its other names sorted into enums and
aggregates. -/
inductive Ty.ExpandsTo (r : Registry) : Ty → Ty → Prop where
  | prim (p : Prim) : ExpandsTo r (.prim p) (.prim p)
  | target {t target u : Ty} (ha : r.aliasOf? t = some target) (h : ExpandsTo r target u) :
    ExpandsTo r t u
  | enum {t : Ty} {name : String} (ht : t.name? = some name) (ha : r.alias? name = none)
      (he : r.isEnum name = true) : ExpandsTo r t (.enum name)
  | aggregate {t : Ty} {name : String} (ht : t.name? = some name) (ha : r.alias? name = none)
      (he : r.isEnum name = false) : ExpandsTo r t (.aggregate name)
  | seq {elem u : Ty} (h : ExpandsTo r elem u) : ExpandsTo r (.seq elem) (.seq u)
  | tuple {elems us : List Ty} (h : List.Forall₂ (ExpandsTo r) elems us) :
    ExpandsTo r (.tuple elems) (.tuple us)
  | optional {inner u : Ty} (h : ExpandsTo r inner u) : ExpandsTo r (.optional inner) (.optional u)
  | ref {inner u : Ty} (mutable : Bool) (h : ExpandsTo r inner u) :
    ExpandsTo r (.ref inner mutable) (.ref u mutable)
  | fn {params us : List Ty} {ret u : Ty} (hp : List.Forall₂ (ExpandsTo r) params us)
      (hr : ExpandsTo r ret u) : ExpandsTo r (.fn params ret) (.fn us u)

namespace Ty

mutual

/-- The references to declarations in a type, each with whether it is one to an enum. -/
def references : Ty → List (String × Bool)
  | .prim _ => []
  | .aggregate name => [(name, false)]
  | .enum name => [(name, true)]
  | .seq inner | .optional inner | .ref inner _ => inner.references
  | .tuple elems => referencesList elems
  | .fn params ret => referencesList params ++ ret.references

/-- The references to declarations in types. -/
def referencesList : List Ty → List (String × Bool)
  | [] => []
  | t :: ts => t.references ++ referencesList ts

end

/-- No reference is to an alias, and it is one to an enum exactly if its name is declared so. -/
def IsNormal (r : Registry) (t : Ty) : Prop :=
  ∀ ref ∈ t.references, r.alias? ref.1 = none ∧ (ref.2 = true ↔ r.isEnum ref.1 = true)

/-- Every path down through the expansion of the type takes at most `n` steps. A step goes to what a
type constructor is applied to, or from an alias to its target. -/
def PathsWithin (r : Registry) (n : Nat) (t : Ty) : Prop :=
  ∀ path : List Ty, (t :: path).IsChain (fun t u => u ∈ r.layer t) → path.length ≤ n

variable {r : Registry} {t u : Ty} {n : Nat}

/-! ## Paths -/

/-- No path leads down from a type without a layer below. -/
theorem pathsWithin_zero : t.PathsWithin r 0 ↔ r.layer t = [] := by
  constructor
  · intro h
    refine List.eq_nil_iff_forall_not_mem.2 fun u hu => ?_
    have hpath : [t, u].IsChain (fun t u => u ∈ r.layer t) := by simpa using hu
    exact absurd (h [u] hpath) (by simp)
  · intro h path hpath
    cases path with
    | nil => exact Nat.le_refl 0
    | cons u path =>
      have hu := (List.isChain_cons_cons.1 hpath).1
      rw [h] at hu
      cases hu

/-- Paths are one step longer than those from the layer below. -/
theorem pathsWithin_succ : t.PathsWithin r (n + 1) ↔ ∀ u ∈ r.layer t, u.PathsWithin r n := by
  constructor
  · intro h u hu path hpath
    exact Nat.le_of_succ_le_succ (h (u :: path) (List.isChain_cons_cons.2 ⟨hu, hpath⟩))
  · intro h path hpath
    cases path with
    | nil => exact Nat.zero_le _
    | cons u path =>
      obtain ⟨hu, hpath⟩ := List.isChain_cons_cons.1 hpath
      exact Nat.succ_le_succ (h u hu path hpath)

instance decidablePathsWithin (r : Registry) : (n : Nat) → (t : Ty) → Decidable (t.PathsWithin r n)
  | 0, _ => decidable_of_iff _ pathsWithin_zero.symm
  | n + 1, t =>
    have := decidablePathsWithin r n
    decidable_of_iff (∀ u ∈ r.layer t, u.PathsWithin r n) pathsWithin_succ.symm

/-- What a layer has from the layer below holds of a type whose paths are not longer than there are
layers. -/
theorem PathsWithin.induction {P : Nat → Ty → Prop}
    (step : ∀ n t, (∀ u ∈ r.layer t, P n u) → P (n + 1) t) (h : t.PathsWithin r n) :
    P (n + 1) t := by
  induction n generalizing t with
  | zero =>
    refine step 0 t fun u hu => ?_
    rw [pathsWithin_zero.1 h] at hu
    cases hu
  | succ n ih => exact step (n + 1) t fun u hu => ih (pathsWithin_succ.1 h u hu)

/-- Where no path is longer than the bound allows, no alias is left. -/
theorem PathsWithin.expands (h : t.PathsWithin r Registry.maxAliasDepth) : t.Expands r :=
  h.induction (P := ExpandsIn r) fun _ _ => expandsIn_succ.2

/-! ## Normal types -/

/-- The references in types are those in each of them. -/
theorem forall_mem_referencesList {P : String × Bool → Prop} {ts : List Ty} :
    (∀ ref ∈ referencesList ts, P ref) ↔ ∀ t ∈ ts, ∀ ref ∈ t.references, P ref := by
  induction ts with
  | nil => simp [referencesList]
  | cons t ts ih => rw [referencesList, List.forall_mem_append, List.forall_mem_cons, ih]

/-- A tuple is normal exactly if its items are. -/
theorem isNormal_tuple {elems : List Ty} :
    (Ty.tuple elems).IsNormal r ↔ ∀ t ∈ elems, t.IsNormal r :=
  forall_mem_referencesList

/-- A function type is normal exactly if its parameters and its result are. -/
theorem isNormal_fn {params : List Ty} {ret : Ty} :
    (Ty.fn params ret).IsNormal r ↔ (∀ t ∈ params, t.IsNormal r) ∧ ret.IsNormal r := by
  rw [IsNormal, references, List.forall_mem_append, forall_mem_referencesList]
  rfl

/-- Expanding changes nothing in a normal type. -/
theorem IsNormal.normalizeWithin (h : t.IsNormal r) (n : Nat) : r.normalizeWithin n t = t := by
  induction n generalizing t with
  | zero => rfl
  | succ n ih =>
    have hlist : ∀ ts : List Ty, (∀ t ∈ ts, t.IsNormal r) → ts.map (r.normalizeWithin n) = ts :=
      fun ts hts => (List.map_congr_left fun t ht => ih (hts t ht)).trans (List.map_id ts)
    cases t with
    | prim p => rfl
    | aggregate name =>
      obtain ⟨ha, he⟩ := h (name, false) (.head _)
      simp only [Registry.normalizeWithin, ha]
      rw [if_neg (by simpa using he)]
    | enum name =>
      obtain ⟨ha, he⟩ := h (name, true) (.head _)
      simp only [Registry.normalizeWithin, ha]
      rw [if_pos (he.1 rfl)]
    | seq elem => exact congrArg Ty.seq (ih h)
    | tuple elems => exact congrArg Ty.tuple (hlist elems (isNormal_tuple.1 h))
    | optional inner => exact congrArg Ty.optional (ih h)
    | ref inner mutable => exact congrArg (Ty.ref · mutable) (ih h)
    | fn params ret =>
      obtain ⟨hp, hr⟩ := isNormal_fn.1 h
      rw [Registry.normalizeWithin, hlist params hp, ih hr]

end Ty

namespace Registry

variable {r : Registry} {t u : Ty} {n : Nat}

/-- A name that is no alias becomes one of a declaration. -/
theorem normalizeWithin_of_name? {name : String} (ht : t.name? = some name)
    (ha : r.alias? name = none) (n : Nat) :
    r.normalizeWithin (n + 1) t = if r.isEnum name then .enum name else .aggregate name := by
  rcases Ty.eq_of_name? ht with rfl | rfl <;> simp only [normalizeWithin, ha]

/-- One more layer gives a normal type where the layers below do. -/
theorem normalizeWithin_isNormal (h : ∀ u ∈ r.layer t, (r.normalizeWithin n u).IsNormal r) :
    (r.normalizeWithin (n + 1) t).IsNormal r := by
  cases ha : r.aliasOf? t with
  | some target =>
    rw [normalizeWithin_of_aliasOf? ha]
    exact h target (by simp [layer_of_aliasOf? ha])
  | none =>
    cases t with
    | prim p => exact List.forall_mem_nil _
    | aggregate name | enum name =>
      rw [normalizeWithin_of_name? rfl ha]
      split
      · next he => exact List.forall_mem_singleton.2 ⟨ha, by simp [he]⟩
      · next he => exact List.forall_mem_singleton.2 ⟨ha, by simp [he]⟩
    | seq elem => exact h elem (.head _)
    | optional inner => exact h inner (.head _)
    | ref inner mutable => exact h inner (.head _)
    | tuple elems => exact Ty.isNormal_tuple.2 (List.forall_mem_map.2 h)
    | fn params ret =>
      obtain ⟨hp, hr⟩ := List.forall_mem_append.1 h
      exact Ty.isNormal_fn.2 ⟨List.forall_mem_map.2 hp, hr ret (.head _)⟩

/-- One more layer gives the complete expansion where the layers below do. -/
theorem expandsTo_normalizeWithin (h : ∀ u ∈ r.layer t, u.ExpandsTo r (r.normalizeWithin n u)) :
    t.ExpandsTo r (r.normalizeWithin (n + 1) t) := by
  have hlist : ∀ ts : List Ty, (∀ t ∈ ts, t.ExpandsTo r (r.normalizeWithin n t)) →
      List.Forall₂ (Ty.ExpandsTo r) ts (ts.map (r.normalizeWithin n)) :=
    fun ts hts => List.forall₂_map_right_iff.2 (List.forall₂_same.2 hts)
  cases ha : r.aliasOf? t with
  | some target =>
    rw [normalizeWithin_of_aliasOf? ha]
    exact .target ha (h target (by simp [layer_of_aliasOf? ha]))
  | none =>
    cases t with
    | prim p => exact .prim p
    | aggregate name | enum name =>
      rw [normalizeWithin_of_name? rfl ha]
      split
      · next he => exact .enum rfl ha he
      · next he => exact .aggregate rfl ha (by simpa using he)
    | seq elem => exact .seq (h elem (.head _))
    | optional inner => exact .optional (h inner (.head _))
    | ref inner mutable => exact .ref mutable (h inner (.head _))
    | tuple elems => exact .tuple (hlist elems h)
    | fn params ret =>
      obtain ⟨hp, hr⟩ := List.forall_mem_append.1 h
      exact .fn (hlist params hp) (hr ret (.head _))

/-- No other type is the complete expansion where this is so of the layers below. -/
theorem eq_normalizeWithin_of_expandsTo
    (h : ∀ u ∈ r.layer t, ∀ v, u.ExpandsTo r v → v = r.normalizeWithin n u) :
    ∀ v, t.ExpandsTo r v → v = r.normalizeWithin (n + 1) t := by
  have hlist : ∀ ts us : List Ty, (∀ t ∈ ts, ∀ v, t.ExpandsTo r v → v = r.normalizeWithin n t) →
      List.Forall₂ (Ty.ExpandsTo r) ts us → us = ts.map (r.normalizeWithin n) := by
    intro ts us hts hus
    induction hus with
    | nil => rfl
    | cons hu _ ih =>
      obtain ⟨ht, hts⟩ := List.forall_mem_cons.1 hts
      rw [List.map_cons, ht _ hu, ih hts]
  intro v hv
  cases hv with
  | prim p => rfl
  | target ha hu =>
    rw [normalizeWithin_of_aliasOf? ha]
    exact h _ (by simp [layer_of_aliasOf? ha]) v hu
  | enum ht ha he => rw [normalizeWithin_of_name? ht ha, if_pos he]
  | aggregate ht ha he => rw [normalizeWithin_of_name? ht ha, if_neg (by simp [he])]
  | seq hu => exact congrArg Ty.seq (h _ (.head _) _ hu)
  | tuple hus => exact congrArg Ty.tuple (hlist _ _ h hus)
  | optional hu => exact congrArg Ty.optional (h _ (.head _) _ hu)
  | ref mutable hu => exact congrArg (Ty.ref · mutable) (h _ (.head _) _ hu)
  | fn hus hu =>
    obtain ⟨hp, hr⟩ := List.forall_mem_append.1 h
    rw [normalizeWithin, hlist _ _ hp hus, hr _ (.head _) _ hu]

/-- **Within its bound, expansion is complete.** Where no path through the expansion of a type takes
more steps than the bound allows, the type has one complete expansion, which is what `normalize`
returns. No alias is left in it, its names are those of enums exactly where they are declared so,
and expanding it again changes nothing. -/
theorem normalize_complete (r : Registry) (t : Ty) (h : t.PathsWithin r maxAliasDepth) :
    (∀ u, t.ExpandsTo r u ↔ u = r.normalize t) ∧
    (∀ ref ∈ (r.normalize t).references,
      r.alias? ref.1 = none ∧ (ref.2 = true ↔ r.isEnum ref.1 = true)) ∧
    r.normalize (r.normalize t) = r.normalize t := by
  have hexpands : t.ExpandsTo r (r.normalize t) :=
    h.induction (P := fun n t => t.ExpandsTo r (r.normalizeWithin n t))
      fun _ _ => expandsTo_normalizeWithin
  have hunique : ∀ u, t.ExpandsTo r u → u = r.normalize t :=
    h.induction (P := fun n t => ∀ u, t.ExpandsTo r u → u = r.normalizeWithin n t)
      fun _ _ => eq_normalizeWithin_of_expandsTo
  have hnormal : (r.normalize t).IsNormal r :=
    h.induction (P := fun n t => (r.normalizeWithin n t).IsNormal r)
      fun _ _ => normalizeWithin_isNormal
  refine ⟨fun u => ⟨hunique u, ?_⟩, hnormal, hnormal.normalizeWithin _⟩
  rintro rfl
  exact hexpands

/-- `n` aliases, each of which stands for the next one, and the last one for the enum `Color`. -/
def aliasChain (n : Nat) : Registry :=
  let link i := String.ofList (List.replicate i 'a')
  { Registry.empty with
    enums := [⟨.zero, "Color", [], []⟩]
    aliases := (List.range n).map fun i =>
      ⟨.zero, link i, .aggregate (if i + 1 = n then "Color" else link (i + 1))⟩ }

/-- A sequence of the first of 31 aliases has a path of as many steps as the bound allows. With one
more alias the last name is left unsorted, and only a second expansion sorts it. -/
theorem aliasChain_complete :
    let r := aliasChain 31
    let t := Ty.seq (.aggregate "")
    t.PathsWithin r maxAliasDepth ∧ ¬ t.PathsWithin r 31 ∧
      t.ExpandsTo r (.seq (.enum "Color")) ∧
      r.normalize (.seq (.enum "Color")) = .seq (.enum "Color") ∧
      (aliasChain 32).normalize t = .seq (.aggregate "Color") ∧
      (aliasChain 32).normalize (.seq (.aggregate "Color")) = .seq (.enum "Color") := by
  intro r t
  have hpaths : t.PathsWithin r maxAliasDepth := by decide +kernel
  have hresult : r.normalize t = .seq (.enum "Color") := by decide +kernel
  obtain ⟨hexpands, -, hagain⟩ := normalize_complete r t hpaths
  rw [hresult] at hexpands hagain
  exact ⟨hpaths, by decide +kernel, (hexpands _).2 rfl, hagain, by decide +kernel⟩

end Registry

end Oxidize
