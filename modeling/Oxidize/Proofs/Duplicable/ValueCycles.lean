import Mathlib.Data.List.Lex
import Mathlib.Data.List.Sort
import Mathlib.Data.String.Basic
import Oxidize.Duplicable.ValueCycle
import Oxidize.Proofs.Digraph.Components

/-!
# Groups of aggregates that contain each other by value

`Program.HoldsByValue` says which aggregate has a field that holds another one within itself. Where
no two aggregates share a name it is the graph of the value cycles with names for places
(`Program.edge_iff`), so that the components of the graph are the classes of aggregates that
contain each other. `Program.valueCycles_components` says of the groups listed that they are the classes
with several members or with one that holds itself.
-/

namespace Oxidize.Program

open Relation Oxidize.Digraph

/-- A field of the one aggregate holds the other aggregate by value. -/
def HoldsByValue (p : Program) (a b : String) : Prop :=
  (∃ s ∈ p.structs, s.name = a ∧
    ∃ f ∈ s.fields, b ∈ ((Registry.ofProgram p).normalize f.ty).heldNames) ∧
  ∃ s ∈ p.structs, s.name = b

/-- Each of the aggregates contains the other by value, through any number of fields. -/
def MutuallyHeld (p : Program) (a b : String) : Prop :=
  ReflTransGen p.HoldsByValue a b ∧ ReflTransGen p.HoldsByValue b a

/-- A class of aggregates that contain each other by value, sorted, with several members or with one
that holds itself. -/
def IsValueCycle (p : Program) (group : List String) : Prop :=
  group.Pairwise (· < ·) ∧ ∃ a, (∃ s ∈ p.structs, s.name = a) ∧
    (∀ b, b ∈ group ↔ p.MutuallyHeld a b) ∧ (1 < group.length ∨ p.HoldsByValue a a)

/-! ## Places and names -/

/-- The aggregate at a place has the name. -/
def NameAt (p : Program) (place : Nat) (name : String) : Prop :=
  ∃ s, p.structs[place]? = some s ∧ s.name = name

variable {p : Program} {i j : Nat} {a b : String}

/-- Only places of aggregates have names. -/
theorem NameAt.lt (h : p.NameAt i a) : i < p.structs.length := by
  obtain ⟨s, hs, _⟩ := h
  exact (List.getElem?_eq_some_iff.1 hs).1

/-- A place has one name. -/
theorem NameAt.name_unique (ha : p.NameAt i a) (hb : p.NameAt i b) : a = b := by
  obtain ⟨s, hs, rfl⟩ := ha
  obtain ⟨t, ht, rfl⟩ := hb
  rw [Option.some.inj (hs.symm.trans ht)]

/-- Every place has a name. -/
theorem exists_nameAt (h : i < p.structs.length) : ∃ a, p.NameAt i a :=
  ⟨_, _, List.getElem?_eq_getElem h, rfl⟩

/-- The names of aggregates are those at places. -/
theorem exists_nameAt_iff : (∃ s ∈ p.structs, s.name = a) ↔ ∃ i, p.NameAt i a := by
  constructor
  · rintro ⟨s, hs, rfl⟩
    obtain ⟨i, hi⟩ := List.mem_iff_getElem?.1 hs
    exact ⟨i, s, hi, rfl⟩
  · rintro ⟨i, s, hs, rfl⟩
    exact ⟨s, List.mem_of_getElem? hs, rfl⟩

/-- No name is at two places if all names differ. -/
theorem NameAt.place_unique (hp : (p.structs.map (·.name)).Nodup) (hi : p.NameAt i a)
    (hj : p.NameAt j a) : i = j := by
  obtain ⟨s, hs, rfl⟩ := hi
  obtain ⟨t, ht, hname⟩ := hj
  have hlt : i < (p.structs.map (·.name)).length := by
    rw [List.length_map]
    exact (List.getElem?_eq_some_iff.1 hs).1
  refine (List.getElem?_inj hlt hp).1 ?_
  rw [List.getElem?_map, List.getElem?_map, hs, ht, Option.map_some, Option.map_some, hname]

/-- The place that is found for a name has that name. -/
theorem nameAt_of_structPlace? (h : p.structPlace? a = some i) : p.NameAt i a := by
  obtain ⟨⟨s, k⟩, hfind, rfl⟩ := Option.map_eq_some_iff.1 h
  have hname := List.find?_some (p := fun e : StructDecl × Nat => e.1.name == a) hfind
  have hmem := List.mem_reverse.1 (List.mem_of_find?_eq_some hfind)
  exact ⟨s, List.mem_zipIdx_iff_getElem?.1 hmem, eq_of_beq hname⟩

/-- Where no two aggregates share a name, looking for one finds its place. -/
theorem structPlace?_eq_some_iff (hp : (p.structs.map (·.name)).Nodup) :
    p.structPlace? a = some i ↔ p.NameAt i a := by
  refine ⟨nameAt_of_structPlace?, fun h => ?_⟩
  obtain ⟨s, hs, rfl⟩ := h
  have hsome : (p.structPlace? s.name).isSome := by
    rw [structPlace?, Option.isSome_map, findLast?, List.find?_isSome]
    exact ⟨(s, i), List.mem_reverse.2 (List.mem_zipIdx_iff_getElem?.2 hs), beq_self_eq_true _⟩
  obtain ⟨j, hj⟩ := Option.isSome_iff_exists.1 hsome
  rw [hj, (nameAt_of_structPlace? hj).place_unique hp ⟨s, hs, rfl⟩]

/-! ## The graph -/

/-- The graph has a node for each aggregate. -/
theorem size_valueGraph (p : Program) : p.valueGraph.size = p.structs.length := by
  simp [valueGraph, Digraph.size]

/-- There is an edge from an aggregate to the places of the names that its fields hold. -/
theorem edge_valueGraph : p.valueGraph.Edge i j ↔
    ∃ s, p.structs[i]? = some s ∧
      ∃ b ∈ s.heldNames (Registry.ofProgram p), p.structPlace? b = some j := by
  simp only [Digraph.Edge, valueGraph, List.getElem?_toArray, List.getElem?_map,
    Option.map_eq_some_iff]
  constructor
  · rintro ⟨_, ⟨s, hs, rfl⟩, hj⟩
    exact ⟨s, hs, List.mem_filterMap.1 hj⟩
  · rintro ⟨s, hs, hj⟩
    exact ⟨_, ⟨s, hs, rfl⟩, List.mem_filterMap.2 hj⟩

/-- The edges of the graph lead to places. -/
theorem inRange_valueGraph (p : Program) : p.valueGraph.InRange := by
  intro i j h
  obtain ⟨_, _, b, _, hj⟩ := edge_valueGraph.1 h
  rw [size_valueGraph]
  exact (nameAt_of_structPlace? hj).lt

section

variable (hp : (p.structs.map (·.name)).Nodup)
include hp

/-- Edges between places are containment by value between names. -/
theorem edge_iff (hi : p.NameAt i a) (hj : p.NameAt j b) :
    p.valueGraph.Edge i j ↔ p.HoldsByValue a b := by
  rw [edge_valueGraph]
  constructor
  · rintro ⟨s, hs, c, hc, hplace⟩
    obtain rfl := (nameAt_of_structPlace? hplace).name_unique hj
    obtain ⟨f, hf, hheld⟩ := List.mem_flatMap.1 hc
    refine ⟨⟨s, List.mem_of_getElem? hs, ?_, f, hf, hheld⟩, exists_nameAt_iff.2 ⟨j, hj⟩⟩
    exact NameAt.name_unique ⟨s, hs, rfl⟩ hi
  · rintro ⟨⟨s, hs, rfl, f, hf, hheld⟩, _⟩
    obtain ⟨k, hk⟩ := List.mem_iff_getElem?.1 hs
    obtain rfl : k = i := NameAt.place_unique hp ⟨s, hk, rfl⟩ hi
    exact ⟨s, hk, b, List.mem_flatMap.2 ⟨f, hf, hheld⟩, (structPlace?_eq_some_iff hp).2 hj⟩

/-- One place reaches another exactly if the aggregate there contains the other one by value. -/
theorem reaches_iff (hi : p.NameAt i a) (hj : p.NameAt j b) :
    p.valueGraph.Reaches i j ↔ ReflTransGen p.HoldsByValue a b := by
  constructor
  · intro h
    induction h generalizing b with
    | refl => rw [hi.name_unique hj]
    | @tail k j _ hedge ih =>
      obtain ⟨c, hk⟩ := exists_nameAt (p.size_valueGraph ▸ hedge.lt_size)
      exact (ih hk).tail ((edge_iff hp hk hj).1 hedge)
  · intro h
    induction h generalizing j with
    | refl =>
      rw [hi.place_unique hp hj]
      exact .refl
    | @tail c b _ hholds ih =>
      obtain ⟨s, hs, hname, _⟩ := hholds.1
      obtain ⟨k, hk⟩ := exists_nameAt_iff.1 ⟨s, hs, hname⟩
      exact (ih hk).tail ((edge_iff hp hk hj).2 hholds)

/-- Two places are connected exactly if the aggregates there contain each other by value. -/
theorem connected_iff (hi : p.NameAt i a) (hj : p.NameAt j b) :
    p.valueGraph.Connected i j ↔ p.MutuallyHeld a b := by
  rw [Digraph.Connected, reaches_iff hp hi hj, reaches_iff hp hj hi, MutuallyHeld]

end

/-! ## Groups of names -/

/-- The name of the aggregate at a place. -/
def nameOf (p : Program) (place : Nat) : String :=
  ((p.structs[place]?).map (·.name)).getD ""

/-- The place of the aggregate with a name. -/
def placeOf (p : Program) (name : String) : Nat :=
  (p.structPlace? name).getD 0

/-- The names of the aggregates at the places, sorted. -/
def groupOf (p : Program) (places : List Nat) : List String :=
  (places.map p.nameOf).mergeSort (· ≤ ·)

/-- Every place has the name that is read off for it. -/
theorem nameAt_nameOf (h : i < p.structs.length) : p.NameAt i (p.nameOf i) :=
  ⟨p.structs[i], List.getElem?_eq_getElem h, by simp [nameOf, List.getElem?_eq_getElem h]⟩

/-- A partial map that is total on a list maps it. -/
theorem mapM_eq_some_map {α β : Type} {f : α → Option β} {g : α → β} {l : List α}
    (h : ∀ x ∈ l, f x = some (g x)) : l.mapM f = some (l.map g) := by
  induction l with
  | nil => rfl
  | cons x l ih =>
    obtain ⟨hx, hl⟩ := List.forall_mem_cons.1 h
    simp [List.mapM_cons, hx, ih hl]

/-- The names at places of aggregates are found. -/
theorem namesAt?_eq {places : List Nat} (h : ∀ i ∈ places, i < p.structs.length) :
    p.namesAt? places = some (p.groupOf places) := by
  have hnames : ∀ i ∈ places, (p.structs[i]?).map (·.name) = some (p.nameOf i) := fun i hi => by
    simp [nameOf, List.getElem?_eq_getElem (h i hi)]
  rw [namesAt?, mapM_eq_some_map hnames]
  rfl

/-- The cycles of names are the sorted groups of the cycles of the graph. -/
theorem valueCycles?_of_cycles {cycles : List (List Nat)}
    (hcycles : p.valueGraph.cycles? = some cycles)
    (hlt : ∀ c ∈ cycles, ∀ i ∈ c, i < p.structs.length) :
    p.valueCycles? = some ((cycles.map p.groupOf).mergeSort fun a b => !decide (b < a)) := by
  rw [valueCycles?, hcycles]
  simp only [Option.bind_eq_bind, Option.bind_some,
    mapM_eq_some_map fun c hc => namesAt?_eq (hlt c hc)]
  rfl

/-- The names of a group are those at its places. -/
theorem mem_groupOf {places : List Nat} : a ∈ p.groupOf places ↔ ∃ i ∈ places, p.nameOf i = a := by
  rw [groupOf, List.mem_mergeSort, List.mem_map]

/-- A group has as many names as places. -/
theorem length_groupOf (places : List Nat) : (p.groupOf places).length = places.length := by
  rw [groupOf, List.length_mergeSort, List.length_map]

section

variable (hp : (p.structs.map (·.name)).Nodup)
include hp

/-- Different places have different names if all names differ. -/
theorem nameOf_inj (hi : i < p.structs.length) (hj : j < p.structs.length)
    (h : p.nameOf i = p.nameOf j) : i = j :=
  (nameAt_nameOf hi).place_unique hp (h ▸ nameAt_nameOf hj)

/-- The names of a group are strictly sorted if all names differ. -/
theorem pairwise_groupOf {places : List Nat} (hnodup : places.Nodup)
    (hlt : ∀ i ∈ places, i < p.structs.length) : (p.groupOf places).Pairwise (· < ·) := by
  have hsorted : (p.groupOf places).Pairwise (· ≤ ·) := List.pairwise_mergeSort' _ _
  have hnames : (p.groupOf places).Nodup := (List.mergeSort_perm _ _).nodup_iff.2
    (hnodup.map_on fun i hi j hj h => nameOf_inj hp (hlt i hi) (hlt j hj) h)
  exact (hsorted.and hnames).imp fun h => lt_of_le_of_ne h.1 h.2

omit hp in
/-- What an aggregate contains is an aggregate. -/
theorem exists_nameAt_of_reaches (hi : p.NameAt i a) (h : ReflTransGen p.HoldsByValue a b) :
    ∃ j, p.NameAt j b := by
  cases h with
  | refl => exact ⟨i, hi⟩
  | tail _ hholds => exact exists_nameAt_iff.1 hholds.2

/-- The names of a component with a cycle are a value cycle. -/
theorem isValueCycle_groupOf {places : List Nat} (hnodup : places.Nodup)
    (hlt : ∀ i ∈ places, i < p.structs.length) (hcomponent : p.valueGraph.IsComponent places)
    (hcyclic : p.valueGraph.IsCyclic places) : p.IsValueCycle (p.groupOf places) := by
  refine ⟨pairwise_groupOf hp hnodup hlt, ?_⟩
  have hclass : ∀ i ∈ places, ∀ b, b ∈ p.groupOf places ↔ p.MutuallyHeld (p.nameOf i) b := by
    intro i hi b
    have hname := nameAt_nameOf (hlt i hi)
    rw [mem_groupOf]
    constructor
    · rintro ⟨j, hj, rfl⟩
      exact (connected_iff hp hname (nameAt_nameOf (hlt j hj))).1 ((hcomponent.mem_iff hi j).1 hj)
    · intro h
      obtain ⟨j, hj⟩ := exists_nameAt_of_reaches hname h.1
      refine ⟨j, (hcomponent.mem_iff hi j).2 ((connected_iff hp hname hj).2 h), ?_⟩
      exact (nameAt_nameOf hj.lt).name_unique hj
  have hstruct : ∀ i ∈ places, ∃ s ∈ p.structs, s.name = p.nameOf i := fun i hi =>
    exists_nameAt_iff.2 ⟨i, nameAt_nameOf (hlt i hi)⟩
  rcases hcyclic with hlen | ⟨i, hi, hedge⟩
  · obtain ⟨i, hi, _⟩ := hcomponent
    exact ⟨p.nameOf i, hstruct i hi, hclass i hi, .inl (length_groupOf places ▸ hlen)⟩
  · have hname := nameAt_nameOf (hlt i hi)
    exact ⟨p.nameOf i, hstruct i hi, hclass i hi, .inr ((edge_iff hp hname hname).1 hedge)⟩

/-- A value cycle consists of the names of a component with a cycle. -/
theorem exists_component_of_isValueCycle {group : List String} (h : p.IsValueCycle group) :
    ∃ places : List Nat, places.map p.nameOf = group ∧ places.Nodup ∧
      (∀ i ∈ places, i < p.structs.length) ∧ p.valueGraph.IsComponent places ∧
      p.valueGraph.IsCyclic places := by
  obtain ⟨hsorted, a, ha, hclass, hcyclic⟩ := h
  obtain ⟨i, hi⟩ := exists_nameAt_iff.1 ha
  have hplace : ∀ b ∈ group, p.NameAt (p.placeOf b) b := fun b hb => by
    obtain ⟨j, hj⟩ := exists_nameAt_of_reaches hi ((hclass b).1 hb).1
    rwa [placeOf, (structPlace?_eq_some_iff hp).2 hj]
  have hmem : ∀ j, j ∈ group.map p.placeOf ↔ ∃ b ∈ group, p.NameAt j b := by
    intro j
    rw [List.mem_map]
    constructor
    · rintro ⟨b, hb, rfl⟩
      exact ⟨b, hb, hplace b hb⟩
    · rintro ⟨b, hb, hj⟩
      exact ⟨b, hb, (hplace b hb).place_unique hp hj⟩
  have hname : ∀ b ∈ group, p.nameOf (p.placeOf b) = b := fun b hb =>
    (nameAt_nameOf (hplace b hb).lt).name_unique (hplace b hb)
  have hnodup : group.Nodup := hsorted.imp ne_of_lt
  have haa : a ∈ group := (hclass a).2 ⟨.refl, .refl⟩
  refine ⟨group.map p.placeOf, ?_, ?_, fun j hj => ?_,
    ⟨i, (hmem i).2 ⟨a, haa, hi⟩, fun j => ?_⟩, ?_⟩
  · rw [List.map_map]
    exact (List.map_congr_left hname).trans (List.map_id group)
  · refine hnodup.map_on fun b hb c hc heq => ?_
    rw [← hname b hb, heq, hname c hc]
  · obtain ⟨b, _, hj⟩ := (hmem j).1 hj
    exact hj.lt
  · rw [hmem]
    constructor
    · rintro ⟨b, hb, hj⟩
      exact (connected_iff hp hi hj).2 ((hclass b).1 hb)
    · intro h
      have hj : j < p.structs.length := by
        rcases ReflTransGen.cases_tail h.1 with rfl | ⟨k, _, hedge⟩
        · exact hi.lt
        · exact p.size_valueGraph ▸ p.inRange_valueGraph k j hedge
      have hname := nameAt_nameOf hj
      exact ⟨p.nameOf j, (hclass _).2 ((connected_iff hp hi hname).1 h), hname⟩
  · rcases hcyclic with hlen | hholds
    · exact .inl (by rwa [List.length_map])
    · exact .inr ⟨i, (hmem i).2 ⟨a, haa, hi⟩, (edge_iff hp hi hi).2 hholds⟩

/-- The groups listed are the names of the components with a cycle. -/
theorem valueCycles?_eq :
    ∃ groups, p.valueCycles? = some groups ∧ (∀ group, group ∈ groups ↔ p.IsValueCycle group) ∧
      groups.Pairwise (· ≤ ·) ∧ groups.Pairwise List.Disjoint := by
  obtain ⟨cycles, hcycles, hdisjoint, hsound, hcomplete⟩ := cycles?_eq_some p.inRange_valueGraph
  rw [size_valueGraph] at hsound hcomplete
  have hperm := List.mergeSort_perm (cycles.map p.groupOf) fun a b => !decide (b < a)
  refine ⟨_, valueCycles?_of_cycles hcycles fun c hc => (hsound c hc).2.1,
    fun group => ?_, ?_, ?_⟩
  · rw [hperm.mem_iff, List.mem_map]
    constructor
    · rintro ⟨c, hc, rfl⟩
      obtain ⟨hnodup, hlt, hcomponent, hcyclic⟩ := hsound c hc
      exact isValueCycle_groupOf hp hnodup hlt hcomponent hcyclic
    · intro h
      obtain ⟨c, hgroup, hnodup, hlt, hcomponent, hcyclic⟩ := exists_component_of_isValueCycle hp h
      obtain ⟨d, hd, hdc⟩ := hcomplete c hnodup hlt hcomponent hcyclic
      refine ⟨d, hd, ?_⟩
      have hgroupOf : (p.groupOf d).Perm group :=
        (List.mergeSort_perm _ _).trans (hgroup ▸ hdc.map p.nameOf)
      obtain ⟨hdnodup, hdlt, _⟩ := hsound d hd
      exact hgroupOf.eq_of_pairwise' (pairwise_groupOf hp hdnodup hdlt) h.1
  · have hsorted := List.pairwise_mergeSort
      (fun a b c (hab : (!decide (b < a)) = true) (hbc : (!decide (c < b)) = true) => by
        simp only [Bool.not_eq_true', decide_eq_false_iff_not, not_lt] at hab hbc ⊢
        exact hab.trans hbc)
      (fun a b => by simpa using le_total a b) (cycles.map p.groupOf)
    simpa using hsorted
  · refine (hperm.pairwise_iff fun h => h.symm).2 (List.pairwise_map.2 ?_)
    refine hdisjoint.imp_of_mem fun {c d} hc hd hcd => ?_
    intro name hcname hdname
    obtain ⟨i, hi, rfl⟩ := mem_groupOf.1 hcname
    obtain ⟨j, hj, hij⟩ := mem_groupOf.1 hdname
    obtain rfl := nameOf_inj hp ((hsound d hd).2.1 j hj) ((hsound c hc).2.1 i hi) hij
    exact hcd hi hj

end

/-- A cycle has a member. -/
theorem IsValueCycle.ne_nil {group : List String} (h : p.IsValueCycle group) : group ≠ [] := by
  obtain ⟨_, a, _, hclass, _⟩ := h
  exact List.ne_nil_of_mem ((hclass a).2 ⟨.refl, .refl⟩)

/-- **The groups listed are the components with a cycle.** A search of a graph whose edges all lead
to nodes never looks up what is no node and divides the nodes into components. So where no two
aggregates share a name the groups have been found without such a look-up, they are the classes of
aggregates that contain each other, in order and each once, and they have no member in common. -/
theorem valueCycles_components :
    (∀ g : Digraph, g.InRange → ∃ components, g.components? = some components ∧
      components.flatten.Perm (List.range g.size) ∧ ∀ c ∈ components, g.IsComponent c) ∧
    ∀ p : Program, (p.structs.map (·.name)).Nodup →
      p.valueCycles? = some p.valueCycles ∧
      (∀ group, group ∈ p.valueCycles ↔ p.IsValueCycle group) ∧
      p.valueCycles.Pairwise (· < ·) ∧ p.valueCycles.Pairwise List.Disjoint := by
  refine ⟨fun g hg => components?_eq_some hg, fun p hp => ?_⟩
  obtain ⟨groups, hgroups, hmem, hsorted, hdisjoint⟩ := valueCycles?_eq hp
  have heq : p.valueCycles = groups := by rw [valueCycles, hgroups, Option.getD_some]
  rw [heq]
  refine ⟨hgroups, hmem, ?_, hdisjoint⟩
  -- Groups without a common member differ, since none is empty.
  refine (hsorted.and hdisjoint).imp_of_mem fun {a b} ha _ h => lt_of_le_of_ne h.1 ?_
  rintro rfl
  obtain ⟨name, hname⟩ := List.exists_mem_of_ne_nil a ((hmem a).1 ha).ne_nil
  exact h.2 hname hname

/-- Two aggregates that hold each other, one that holds itself and one that does not. -/
def ringAndLoop : Program where
  decls := [
    .struct ⟨.zero, "B", [⟨"a", .optional (.aggregate "A")⟩], []⟩,
    .struct ⟨.zero, "Node", [⟨"next", .tuple [.f64, .aggregate "Node"]⟩], []⟩,
    .struct ⟨.zero, "List", [⟨"items", .seq (.aggregate "List")⟩], []⟩,
    .struct ⟨.zero, "A", [⟨"b", .aggregate "B"⟩, ⟨"list", .aggregate "List"⟩], []⟩]

/-- The cycles of the example are the two aggregates that hold each other and the one that holds
itself. -/
theorem ringAndLoop_valueCycles :
    ringAndLoop.valueGraph.InRange ∧ (ringAndLoop.structs.map (·.name)).Nodup ∧
      (∃ components, ringAndLoop.valueGraph.components? = some components ∧
        components.flatten.Perm [0, 1, 2, 3]) ∧
      ∀ group, group ∈ [["A", "B"], ["Node"]] ↔ ringAndLoop.IsValueCycle group := by
  have hrange : ringAndLoop.valueGraph.InRange := ringAndLoop.inRange_valueGraph
  have hnodup : (ringAndLoop.structs.map (·.name)).Nodup := by decide
  have hcycles : ringAndLoop.valueGraph.cycles? = some [[3, 0], [1]] := by decide +kernel
  have hgroups : ringAndLoop.valueCycles = [["A", "B"], ["Node"]] := by
    have hring : ringAndLoop.groupOf [3, 0] = ["A", "B"] := List.mergeSort_of_pairwise (by decide)
    have hloop : ringAndLoop.groupOf [1] = ["Node"] := List.mergeSort_of_pairwise (by decide)
    rw [valueCycles, valueCycles?_of_cycles hcycles (by decide), List.map_cons, List.map_cons,
      hring, hloop]
    exact List.mergeSort_of_pairwise (by decide)
  obtain ⟨components, hcomponents, hperm, _⟩ := valueCycles_components.1 _ hrange
  refine ⟨hrange, hnodup, ⟨components, hcomponents, hperm⟩, ?_⟩
  exact hgroups ▸ (valueCycles_components.2 ringAndLoop hnodup).2.1

end Oxidize.Program
