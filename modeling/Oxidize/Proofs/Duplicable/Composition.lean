import Mathlib.Data.List.Sort
import Mathlib.Data.String.Basic
import Oxidize.Proofs.Duplicable.Tags

/-!
# Runs of the closure compose

A run starts from nothing but the program, so a second run sees what a first one found only through
the derive tags. It sees all of it: the state that the tagged program starts in is the state that
the first run stopped in, up to the order of the names (`Program.start_alike`). Passes from states
that are alike in this sense stay alike (`ClosureState.Alike.settle`), and passes in two portions
are passes in one (`ClosureState.settle_settle`), whether the first portion was used up or not. So
two runs with a number of passes each come to the same as one run with the sum
(`Program.copyClosure_add`).
-/

namespace Oxidize

/-! ## Sets that admit the same -/

/-- Names are expanded alike where the same aliases and enums are declared. -/
theorem Registry.normalizeWithin_congr {r r' : Registry} (halias : r.aliases = r'.aliases)
    (henum : ∀ name, r.isEnum name = r'.isEnum name) (n : Nat) (t : Ty) :
    r.normalizeWithin n t = r'.normalizeWithin n t := by
  have hfind : ∀ name, r.alias? name = r'.alias? name := fun name => by
    rw [alias?, alias?, halias]
  induction n generalizing t with
  | zero => rfl
  | succ n ih =>
    have ih : r.normalizeWithin n = r'.normalizeWithin n := funext ih
    cases t <;> simp only [normalizeWithin, hfind, henum, ih]

/-- The enums of a registry are found by their names. -/
theorem Registry.isEnum_iff {r : Registry} {name : String} :
    r.isEnum name = true ↔ name ∈ r.enums.map (·.name) := by
  simp [isEnum, enum?, findLast?, List.find?_isSome]

namespace CopySet

/-- The same names, in whatever order, and the same view of aliases. -/
structure Alike (a b : CopySet) : Prop where
  names : a.names.Perm b.names
  normalized : a.normalized = b.normalized
  bound : a.expansionBound = b.expansionBound

namespace Alike

variable {a b : CopySet}

/-- A set is like itself. -/
theorem refl (a : CopySet) : a.Alike a :=
  ⟨.refl _, rfl, rfl⟩

/-- Sets that are like a third one are alike. -/
theorem trans {c : CopySet} (hab : a.Alike b) (hbc : b.Alike c) : a.Alike c :=
  ⟨hab.names.trans hbc.names, hab.normalized.trans hbc.normalized, hab.bound.trans hbc.bound⟩

/-- Sets are alike if they have the same names and registries with the same aliases and names of
enums. -/
theorem of_registry {r r' : Registry} (ha : a.registry = some r) (hb : b.registry = some r')
    (halias : r.aliases = r'.aliases) (henum : ∀ name, r.isEnum name = r'.isEnum name)
    (hnames : a.names.Perm b.names) : a.Alike b where
  names := hnames
  normalized := by
    funext t
    rw [CopySet.normalized, CopySet.normalized, ha, hb]
    exact Registry.normalizeWithin_congr halias henum _ t
  bound := by
    funext t
    rw [expansionBound, expansionBound, ha, hb]
    simp only [Registry.expansionBound, halias]

/-- Sets that are alike contain the same. -/
theorem contains (h : a.Alike b) (name : String) : a.contains name = b.contains name :=
  Bool.eq_iff_iff.2 (by simp [CopySet.contains, h.names.mem_iff])

/-- Sets that are alike admit the same types within a number of expansions. -/
theorem admitsWithin (h : a.Alike b) (n : Nat) (t : Ty) :
    a.admitsWithin n t = b.admitsWithin n t := by
  induction n generalizing t with
  | zero => rfl
  | succ n ih =>
    rw [CopySet.admitsWithin, CopySet.admitsWithin, h.normalized]
    cases b.normalized t <;> simp only [h.contains, ih, funext ih]

/-- Sets that are alike admit the same types. -/
theorem admits (h : a.Alike b) (t : Ty) : a.admits t = b.admits t := by
  rw [CopySet.admits, CopySet.admits, callBound, callBound, h.bound, h.admitsWithin]

/-- Sets that are alike promote the same declarations. -/
theorem promotable? (h : a.Alike b) (d : Decl) : d.promotable? a = d.promotable? b := by
  cases d <;> simp only [Decl.promotable?, h.contains, h.admits]

/-- Sets that are alike stay so when a name is added. -/
theorem insert (h : a.Alike b) (name : String) : (a.insert name).Alike (b.insert name) := by
  rw [CopySet.insert, CopySet.insert, h.contains]
  split
  · exact h
  · exact ⟨h.names.cons name, h.normalized, h.bound⟩

/-- Sorted, the names are the same. -/
theorem sorted_eq (h : a.Alike b) : a.names.mergeSort (· ≤ ·) = b.names.mergeSort (· ≤ ·) := by
  have hperm := (List.mergeSort_perm a.names (· ≤ ·)).trans
    (h.names.trans (List.mergeSort_perm _ (· ≤ ·)).symm)
  exact hperm.eq_of_pairwise' (List.pairwise_mergeSort' _ _) (List.pairwise_mergeSort' _ _)

end Alike

end CopySet

/-! ## Passes from states that are alike -/

namespace ClosureState

/-- The same declarations, tags included, and sets that admit the same. -/
structure Alike (s t : ClosureState) : Prop where
  decls : s.decls = t.decls
  set : s.set.Alike t.set

/-- A state is like itself. -/
theorem Alike.refl (s : ClosureState) : s.Alike s :=
  ⟨rfl, .refl _⟩

/-- A pass from sets that are alike ends in states that are alike. -/
theorem passOver_alike {a b : CopySet} (h : a.Alike b) (i j : Nat) (ds : List Decl) :
    (passOver i a ds).value.Alike (passOver j b ds).value := by
  induction ds generalizing a b with
  | nil => exact ⟨rfl, h⟩
  | cons d ds ih =>
    rw [passOver, passOver, h.promotable? d]
    cases d.promotable? b with
    | some name =>
      obtain ⟨hdecls, hset⟩ := ih (h.insert name)
      exact ⟨congrArg (List.cons _) hdecls, hset⟩
    | none =>
      obtain ⟨hdecls, hset⟩ := ih h
      exact ⟨congrArg (List.cons _) hdecls, hset⟩

/-- States that are like a third one are alike. -/
theorem Alike.trans {s t u : ClosureState} (hst : s.Alike t) (htu : t.Alike u) : s.Alike u :=
  ⟨hst.decls.trans htu.decls, hst.set.trans htu.set⟩

/-- States that are alike are settled alike. -/
theorem Alike.isSettled {s t : ClosureState} (h : s.Alike t) : s.isSettled = t.isSettled := by
  rw [ClosureState.isSettled, ClosureState.isSettled, h.decls]
  simp only [h.set.promotable?]

/-- Runs that stop in states that are alike and agree whether anything is left to tag. -/
structure AlikeEnd (x y : ClosureState × ClosureOutcome) : Prop where
  state : x.1.Alike y.1
  converged : x.2.converged = y.2.converged

/-- Runs that end like a third one end alike. -/
theorem AlikeEnd.trans {x y z : ClosureState × ClosureOutcome} (hxy : AlikeEnd x y)
    (hyz : AlikeEnd y z) : AlikeEnd x z :=
  ⟨hxy.state.trans hyz.state, hxy.converged.trans hyz.converged⟩

/-- How many passes came before does not matter to what the next ones do. -/
theorem Alike.settle {s t : ClosureState} (h : s.Alike t) (left i j : Nat) :
    AlikeEnd (settle left i s).value (settle left j t).value := by
  induction left generalizing i j s t with
  | zero => exact ⟨h, h.isSettled⟩
  | succ left ih =>
    have hnext := passOver_alike h.set (i + 1) (j + 1) s.decls
    nth_rewrite 2 [h.decls] at hnext
    rw [ClosureState.settle, ClosureState.settle, Traced.value_bind, Traced.value_bind,
      hnext.set.names.length_eq, h.set.names.length_eq]
    split
    · exact ⟨hnext, rfl⟩
    · exact ih hnext _ _

/-! ## Passes in two portions -/

/-- A pass that offers nothing changes nothing. -/
theorem passOver_of_offers_eq_nil {pass : Nat} {set : CopySet} {ds : List Decl}
    (h : offers ds set = []) : (passOver pass set ds).value = ⟨ds, set⟩ := by
  induction ds with
  | nil => rfl
  | cons d ds ih =>
    rw [offers_cons, List.append_eq_nil_iff, Option.toList_eq_nil_iff] at h
    simp [passOver, h.1, ih h.2]

/-- Where nothing is left to tag, no number of passes changes anything. -/
theorem settle_of_offers_eq_nil {s : ClosureState} (h : offers s.decls s.set = [])
    (left done : Nat) :
    (settle left done s).value.1 = s ∧ (settle left done s).value.2.converged = true := by
  cases left with
  | zero => exact ⟨rfl, s.isSettled_iff.2 h⟩
  | succ left =>
    rw [settle, Traced.value_bind, passOver_of_offers_eq_nil h, if_pos rfl]
    exact ⟨rfl, rfl⟩

/-- Going on from where a first portion of passes stopped is doing all of them at once. -/
theorem settle_settle (m n done next : Nat) (s : ClosureState) :
    AlikeEnd (settle n next (settle m done s).value.1).value (settle (m + n) done s).value := by
  induction m generalizing done s with
  | zero =>
    rw [Nat.zero_add]
    exact (Alike.refl s).settle n next done
  | succ m ih =>
    rw [Nat.succ_add, settle, settle, Traced.value_bind, Traced.value_bind]
    split
    next hquiet =>
      -- The first portion ended early, so nothing is left to tag.
      obtain ⟨hset, hoffers⟩ := passOver_quiet hquiet
      have hsettled : offers (passOver (done + 1) s.set s.decls).value.decls
          (passOver (done + 1) s.set s.decls).value.set = [] := by
        rw [offers_passOver, hset, hoffers]
      obtain ⟨hstate, hconverged⟩ := settle_of_offers_eq_nil hsettled n next
      refine ⟨?_, hconverged⟩
      simp only [Traced.value_pure, hstate]
      exact Alike.refl _
    next => exact ih _ _

end ClosureState

/-! ## Starting again -/

namespace Program

open ClosureState

/-- The program that a run leaves. -/
def tagged (p : Program) (cap : Nat) : Program :=
  ⟨(p.closureEnd cap).1.decls⟩

/-- The closure returns the program that its run leaves. -/
theorem copyClosure_program (p : Program) (cap : Nat) :
    (p.copyClosure cap).value.1 = p.tagged cap :=
  rfl

/-- A run changes only tags. -/
theorem filterMap_tagged {α : Type} {f : Decl → Option α} (hf : ∀ d, f d.withCopyTags = f d)
    (p : Program) (cap : Nat) : (p.tagged cap).decls.filterMap f = p.decls.filterMap f := by
  have hmap : (p.tagged cap).decls.map f = p.decls.map f :=
    (map_settle hf cap 0 _).trans (map_start hf p)
  have hids := congrArg (List.filterMap id) hmap
  rwa [List.filterMap_map, List.filterMap_map, Function.id_comp] at hids

/-- Tags do not change the aliases of a program. -/
theorem aliases_tagged (p : Program) (cap : Nat) : (p.tagged cap).aliases = p.aliases :=
  filterMap_tagged (fun d => by cases d <;> rfl) p cap

/-- Tags do not change the names of enums. -/
theorem enums_tagged (p : Program) (cap : Nat) :
    (p.tagged cap).enums.map (·.name) = p.enums.map (·.name) := by
  rw [enums, enums, List.map_filterMap, List.map_filterMap]
  exact filterMap_tagged (fun d => by cases d <;> rfl) p cap

/-- The program that a run leaves starts in the state that the run stopped in. -/
theorem start_alike (p : Program) (cap : Nat) :
    (start (p.tagged cap)).Alike (p.closureEnd cap).1 := by
  have htagged := p.closureEnd_tagged cap
  have hrun := p.closureEnd_settles cap
  have hregistry : (p.closureEnd cap).1.set.registry = some (.ofProgram p) := by
    rw [← hrun.grows.registry, registry_start]
  refine ⟨?_, .of_registry (registry_start _) hregistry (p.aliases_tagged cap) (fun name => ?_) ?_⟩
  · refine (List.map_congr_left fun d hd => ?_).trans (List.map_id _)
    split
    next hseed => exact htagged.tags d hd hseed
    next => rfl
  · refine Bool.eq_iff_iff.2 ?_
    rw [Registry.isEnum_iff, Registry.isEnum_iff]
    exact iff_of_eq (congrArg (name ∈ ·) (p.enums_tagged cap))
  · refine (List.perm_ext_iff_of_nodup (nodup_start _) ?_).2 fun name => ?_
    · exact hrun.grows.nodup (nodup_start p)
    · rw [mem_start, ← mem_seeds, htagged.seeds]
      rfl

/-- Runs that end alike list the same names. -/
theorem copyable_eq_of_alike {p q : Program} {m n : Nat}
    (h : (p.closureEnd m).1.Alike (q.closureEnd n).1) :
    (p.closureEnd m).2.copyable = (q.closureEnd n).2.copyable := by
  rw [(p.closureEnd_settles m).copyable, (q.closureEnd_settles n).copyable]
  exact h.set.sorted_eq

/-- Tags do not change what the declarations offer. -/
theorem offers_tagged (p : Program) (cap : Nat) (set : CopySet) :
    offers (p.tagged cap).decls set = offers p.decls set :=
  filterMap_tagged (Decl.promotable?_withCopyTags set) p cap

/-- A run that converges leaves nothing to offer. -/
theorem offers_closureEnd_eq_nil {p : Program} {cap : Nat}
    (h : (p.closureEnd cap).2.converged = true) :
    offers (p.closureEnd cap).1.decls (p.closureEnd cap).1.set = [] := by
  rw [(p.closureEnd_settles cap).converged, CopySet.closed_iff_offers] at h
  exact (p.offers_tagged cap _).trans h

/-- A second run goes on where the first one stopped. -/
theorem closureEnd_tagged_alike (p : Program) (m n : Nat) :
    AlikeEnd ((p.tagged m).closureEnd n) (settle n 0 (p.closureEnd m).1).value :=
  (p.start_alike m).settle n 0 0

/-- **Runs of the closure compose.** A run of at most `m` passes and then one of at most `n` on the
program it leaves come to the same program, tags included, the same duplicable names and the same
verdict as one run of at most `m + n` passes. After a run that converged another one, however
short, changes nothing and converges. -/
theorem copyClosure_add (p : Program) (m n : Nat) :
    let first := (p.copyClosure m).value
    let second := (first.1.copyClosure n).value
    let whole := (p.copyClosure (m + n)).value
    second.1 = whole.1 ∧ second.2.copyable = whole.2.copyable ∧
      second.2.converged = whole.2.converged ∧
      (first.2.converged = true →
        second.1 = first.1 ∧ second.2.copyable = first.2.copyable ∧ second.2.converged = true) := by
  have hsecond := p.closureEnd_tagged_alike m n
  have hwhole : AlikeEnd ((p.tagged m).closureEnd n) (p.closureEnd (m + n)) :=
    hsecond.trans (settle_settle m n 0 0 (start p))
  simp only [copyClosure_program, copyClosure_outcome]
  refine ⟨congrArg Program.mk hwhole.state.decls, copyable_eq_of_alike hwhole.state,
    hwhole.converged, fun hfirst => ?_⟩
  obtain ⟨hstate, hconverged⟩ := settle_of_offers_eq_nil (offers_closureEnd_eq_nil hfirst) n 0
  have hsame : ((p.tagged m).closureEnd n).1.Alike (p.closureEnd m).1 := hstate ▸ hsecond.state
  exact ⟨congrArg Program.mk hsame.decls, copyable_eq_of_alike hsame,
    hsecond.converged.trans hconverged⟩

end Program

end Oxidize
