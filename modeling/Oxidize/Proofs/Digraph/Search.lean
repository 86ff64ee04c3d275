import Mathlib.Data.Finset.Card
import Mathlib.Logic.Relation
import Oxidize.Digraph

/-!
# What a component search keeps

`Search.Inv` is what holds of a search at any time, given the nodes on the path from the first node to
the one being visited: every node on the stack reaches a node of the path that was met no later, and
a node of the path reaches every node on the stack that was met no earlier. The components found are
complete and no edge leads out of them.

`Search.Visits` says what a visit comes to and `Search.Following` what holds between two edges of
the node being visited. Both bound the low mark from above by the ranks of the nodes below it on the
stack that an edge leads to, and both say that the low mark is the rank of a node it reaches. Entering a
node starts following (`Search.Inv.following`), each kind of edge keeps it, and leaving the node turns it
into a visit (`Search.Following.leave`): a node whose low mark is its rank has no way back below it.
-/

namespace Oxidize.Digraph

open Relation

/-! ## Reachability -/

/-- There is an edge between the nodes. -/
def Edge (g : Digraph) (v w : Nat) : Prop :=
  ∃ targets, g.targets[v]? = some targets ∧ w ∈ targets

/-- A path of any number of edges leads from one node to the other. -/
def Reaches (g : Digraph) : Nat → Nat → Prop :=
  ReflTransGen g.Edge

/-- The nodes reach each other. -/
def Connected (g : Digraph) (v w : Nat) : Prop :=
  g.Reaches v w ∧ g.Reaches w v

/-- The nodes are one class of nodes that reach each other. -/
def IsComponent (g : Digraph) (nodes : List Nat) : Prop :=
  ∃ v ∈ nodes, ∀ w, w ∈ nodes ↔ g.Connected v w

/-- All edges lead to nodes. -/
def InRange (g : Digraph) : Prop :=
  ∀ v w, g.Edge v w → w < g.size

namespace Search

/-! ## Marks -/

/-- What is known of a node, nothing of what is no node. -/
def mark (s : Search) (v : Nat) : Mark :=
  (s.mark? v).getD .unmet

/-- The node was met. -/
def Met (s : Search) (v : Nat) : Prop :=
  (s.mark v).rank ≠ none

/-- When a node was met. -/
def rank (s : Search) (v : Nat) : Nat :=
  (s.mark v).rank.getD 0

/-- The least rank seen from a node. -/
def low (s : Search) (v : Nat) : Nat :=
  (s.mark v).low

/-- The nodes that were not met. -/
def unmet (s : Search) : Finset Nat :=
  (Finset.range s.marks.size).filter fun v => (s.mark v).rank = none

variable {s : Search} {v w : Nat}

/-- Every node has a mark. -/
theorem mark?_eq (h : v < s.marks.size) : s.mark? v = some (s.mark v) := by
  rw [mark, mark?, Array.getElem?_eq_getElem h, Option.getD_some]

/-- Only nodes are met. -/
theorem Met.lt (h : s.Met v) : v < s.marks.size := by
  by_contra hv
  rw [Met, mark, mark?, Array.getElem?_eq_none (Nat.le_of_not_lt hv)] at h
  exact h rfl

/-- A node that was met has its rank for a mark. -/
theorem Met.rank_eq (h : s.Met v) : (s.mark v).rank = some (s.rank v) := by
  obtain ⟨rank, hrank⟩ := Option.ne_none_iff_exists'.1 h
  rw [Search.rank, hrank, Option.getD_some]

/-- What is left to meet are the nodes that were not met. -/
theorem mem_unmet : v ∈ s.unmet ↔ v < s.marks.size ∧ ¬ s.Met v := by
  rw [unmet, Finset.mem_filter, Finset.mem_range, Met, not_not]

/-- What was not met grows less. -/
theorem unmet_subset {s' : Search} (hsize : s'.marks.size = s.marks.size)
    (h : ∀ v, s.Met v → s'.Met v) : s'.unmet ⊆ s.unmet := by
  intro v hv
  rw [mem_unmet, hsize] at hv
  exact mem_unmet.2 ⟨hv.1, fun hmet => hv.2 (h v hmet)⟩

/-- The search with another mark of a node. -/
def withMark (s : Search) (v : Nat) (m : Mark) : Search :=
  { s with marks := s.marks.setIfInBounds v m }

/-- The mark of a node can be set. -/
theorem setMark?_eq (h : v < s.marks.size) (m : Mark) : s.setMark? v m = some (s.withMark v m) :=
  if_pos h

/-- Setting the mark of a node keeps the marks of the others. -/
theorem mark_withMark (h : v < s.marks.size) (m : Mark) (w : Nat) :
    (s.withMark v m).mark w = if w = v then m else s.mark w := by
  simp only [mark, mark?, withMark, Array.getElem?_setIfInBounds]
  split <;> simp_all [eq_comm]

/-! ## The two updates of a mark -/

/-- The search after a node was met. -/
def entered (s : Search) (v : Nat) : Search :=
  { s.withMark v ⟨some s.next, s.next, true⟩ with stack := v :: s.stack, next := s.next + 1 }

/-- A node can be entered. -/
theorem enter?_eq (h : v < s.marks.size) : s.enter? v = some (s.entered v) := by
  rw [enter?, setMark?_eq h]
  rfl

/-- A node that is entered gets the next rank and lies on the stack; other marks are kept. -/
theorem mark_entered (h : v < s.marks.size) (w : Nat) :
    (s.entered v).mark w = if w = v then ⟨some s.next, s.next, true⟩ else s.mark w :=
  mark_withMark h _ w

/-- The search after a rank was seen from a node. -/
def lowered (s : Search) (v rank : Nat) : Search :=
  s.withMark v { s.mark v with low := min (s.low v) rank }

/-- The least rank seen from a node can be lowered. -/
theorem lower?_eq (h : v < s.marks.size) (rank : Nat) :
    s.lower? v rank = some (s.lowered v rank) := by
  rw [lower?, mark?_eq h]
  exact setMark?_eq h _

/-- Lowering keeps the marks of other nodes. -/
theorem mark_lowered_of_ne {u rank : Nat} (h : u ≠ v) (hv : v < s.marks.size) :
    (s.lowered v rank).mark u = s.mark u := by
  rw [lowered, mark_withMark hv, if_neg h]

/-- Lowering changes only the least rank that is seen from the node. -/
theorem mark_lowered_self (hv : v < s.marks.size) (rank : Nat) :
    (s.lowered v rank).mark v = { s.mark v with low := min (s.low v) rank } := by
  rw [lowered, mark_withMark hv, if_pos rfl]

/-- Seeing a rank changes nothing but a low mark. -/
theorem rank_mark_lowered (hv : v < s.marks.size) (rank u : Nat) :
    ((s.lowered v rank).mark u).rank = (s.mark u).rank ∧
      ((s.lowered v rank).mark u).onStack = (s.mark u).onStack := by
  by_cases hu : u = v
  · subst hu
    rw [mark_lowered_self hv]
    exact ⟨rfl, rfl⟩
  · rw [mark_lowered_of_ne hu hv]
    exact ⟨rfl, rfl⟩

/-- Lowering meets no node. -/
theorem met_lowered (hv : v < s.marks.size) (rank u : Nat) :
    (s.lowered v rank).Met u ↔ s.Met u := by
  rw [Met, Met, (rank_mark_lowered hv rank u).1]

/-- Lowering keeps all ranks. -/
theorem rank_lowered (hv : v < s.marks.size) (rank u : Nat) :
    (s.lowered v rank).rank u = s.rank u := by
  rw [Search.rank, Search.rank, (rank_mark_lowered hv rank u).1]

/-- After lowering, the least rank seen from the node takes the new one into account. -/
theorem low_lowered (hv : v < s.marks.size) (rank : Nat) :
    (s.lowered v rank).low v = min (s.low v) rank := by
  rw [low, mark_lowered_self hv]

/-! ## The invariant -/

variable {g : Digraph} {path : List Nat}

/-- What holds of a search while the nodes of a path are being visited. -/
structure Inv (g : Digraph) (path : List Nat) (s : Search) : Prop where
  size : s.marks.size = g.size
  onStack : ∀ v, (s.mark v).onStack = true ↔ v ∈ s.stack
  met : ∀ v, s.Met v ↔ v ∈ s.stack ∨ v ∈ s.found.flatten
  nodup : (s.stack ++ s.found.flatten).Nodup
  rank_lt : ∀ v, s.Met v → s.rank v < s.next
  sorted : s.stack.Pairwise fun v w => s.rank w < s.rank v
  path_stack : ∀ v ∈ path, v ∈ s.stack
  met_of_edge : ∀ v w, s.Met v → v ∉ path → g.Edge v w → s.Met w
  found_of_edge : ∀ v ∈ s.found.flatten, ∀ w, g.Edge v w → w ∈ s.found.flatten
  stack_reaches : ∀ v ∈ s.stack, ∃ u ∈ path, s.rank u ≤ s.rank v ∧ g.Reaches v u
  path_reaches : ∀ u ∈ path, ∀ v ∈ s.stack, s.rank u ≤ s.rank v → g.Reaches u v
  component : ∀ c ∈ s.found, g.IsComponent c

namespace Inv

/-- Nodes on the stack were met. -/
theorem met_of_stack (h : Inv g path s) (hv : v ∈ s.stack) : s.Met v :=
  (h.met v).2 (.inl hv)

/-- What lies under a node on the stack was met before it. -/
theorem rank_lt_of_stack (h : Inv g path s) {above below : List Nat}
    (hstack : s.stack = above ++ v :: below) :
    (∀ w ∈ above, s.rank v < s.rank w) ∧ ∀ w ∈ below, s.rank w < s.rank v := by
  have hsorted := h.sorted
  rw [hstack, List.pairwise_append, List.pairwise_cons] at hsorted
  exact ⟨fun w hw => hsorted.2.2 w hw v List.mem_cons_self, hsorted.2.1.1⟩

/-- Nothing that was found reaches anything that was not. -/
theorem found_of_reaches (h : Inv g path s) (hv : v ∈ s.found.flatten) (hr : g.Reaches v w) :
    w ∈ s.found.flatten := by
  induction hr with
  | refl => exact hv
  | tail _ hedge ih => exact h.found_of_edge _ ih _ hedge

/-- The search before its first step has met nothing. -/
theorem start (g : Digraph) : Inv g [] (.start g.size) := by
  have hmark : ∀ v, (Search.start g.size).mark v = .unmet := by
    intro v
    by_cases hv : v < g.size <;> simp [mark, mark?, Search.start, hv]
  have hmet : ∀ v, ¬ (Search.start g.size).Met v := by
    intro v hv
    rw [Met, hmark] at hv
    exact hv rfl
  exact {
    size := Array.size_replicate
    onStack := fun v => by rw [hmark]; simp [Mark.unmet, Search.start]
    met := fun v => iff_of_false (hmet v) (by simp [Search.start])
    nodup := List.nodup_nil
    rank_lt := fun v hv => absurd hv (hmet v)
    sorted := .nil
    path_stack := nofun
    met_of_edge := fun v _ hv => absurd hv (hmet v)
    found_of_edge := nofun
    stack_reaches := nofun
    path_reaches := nofun
    component := nofun }

/-- Lowering keeps the invariant. -/
theorem lowered (h : Inv g path s) (hv : v < s.marks.size) (rank : Nat) :
    Inv g path (s.lowered v rank) where
  size := Array.size_setIfInBounds.trans h.size
  onStack := fun u => by rw [(rank_mark_lowered hv rank u).2]; exact h.onStack u
  met := fun u => by rw [met_lowered hv]; exact h.met u
  nodup := h.nodup
  rank_lt := fun u hu => by
    rw [rank_lowered hv]
    exact h.rank_lt u ((met_lowered hv rank u).1 hu)
  sorted := by simp only [rank_lowered hv]; exact h.sorted
  path_stack := h.path_stack
  met_of_edge := by simp only [met_lowered hv]; exact h.met_of_edge
  found_of_edge := h.found_of_edge
  stack_reaches := by simp only [rank_lowered hv]; exact h.stack_reaches
  path_reaches := by simp only [rank_lowered hv]; exact h.path_reaches
  component := h.component

/-- A node that the whole path reaches is put at its end. -/
theorem entered (h : Inv g path s) (hv : v < g.size) (hnew : ¬ s.Met v)
    (hpath : ∀ u ∈ path, g.Reaches u v) : Inv g (v :: path) (s.entered v) := by
  have hv' : v < s.marks.size := h.size.symm ▸ hv
  have hne : ∀ u, s.Met u → u ≠ v := fun u hu huv => hnew (huv ▸ hu)
  have hold : ∀ u, s.Met u → (s.entered v).rank u = s.rank u := fun u hu => by
    rw [Search.rank, mark_entered hv', if_neg (hne u hu), Search.rank]
  have hstack : ∀ u ∈ s.stack, (s.entered v).rank u = s.rank u := fun u hu =>
    hold u (h.met_of_stack hu)
  have hself : (s.entered v).rank v = s.next := by rw [Search.rank, mark_entered hv', if_pos rfl]; rfl
  have hmet : ∀ u, (s.entered v).Met u ↔ u = v ∨ s.Met u := fun u => by
    rw [Met, mark_entered hv']
    split <;> simp_all [Met]
  exact {
    size := Array.size_setIfInBounds.trans h.size
    onStack := fun u => by
      rw [mark_entered hv']
      split
      next hu => simp [Search.entered, hu]
      next hu => simp [Search.entered, hu, h.onStack]
    met := fun u => by
      rw [hmet, h.met, ← or_assoc]
      exact or_congr_left List.mem_cons.symm
    nodup := by
      refine List.nodup_cons.2 ⟨fun hmem => hnew ((h.met v).2 (List.mem_append.1 hmem)), h.nodup⟩
    rank_lt := fun u hu => by
      rcases (hmet u).1 hu with rfl | hu
      · rw [hself]
        exact Nat.lt_succ_self _
      · rw [hold u hu]
        exact Nat.lt_succ_of_lt (h.rank_lt u hu)
    sorted := by
      refine List.pairwise_cons.2 ⟨fun u hu => ?_, ?_⟩
      · rw [hself, hstack u hu]
        exact h.rank_lt u (h.met_of_stack hu)
      · refine h.sorted.imp_of_mem fun {a b} ha hb hab => ?_
        rw [hstack a ha, hstack b hb]
        exact hab
    path_stack := List.forall_mem_cons.2
      ⟨List.mem_cons_self, fun u hu => List.mem_cons_of_mem v (h.path_stack u hu)⟩
    met_of_edge := fun u w hu hout hedge => by
      have hu' := ((hmet u).1 hu).resolve_left (List.ne_of_not_mem_cons hout)
      exact (hmet w).2 (.inr (h.met_of_edge u w hu' (List.not_mem_of_not_mem_cons hout) hedge))
    found_of_edge := h.found_of_edge
    stack_reaches := by
      refine List.forall_mem_cons.2 ⟨⟨v, List.mem_cons_self, Nat.le_refl _, .refl⟩, fun w hw => ?_⟩
      obtain ⟨u, hu, hle, hr⟩ := h.stack_reaches w hw
      refine ⟨u, List.mem_cons_of_mem v hu, ?_, hr⟩
      rw [hstack u (h.path_stack u hu), hstack w hw]
      exact hle
    path_reaches := by
      refine List.forall_mem_cons.2 ⟨fun w hw hle => ?_, fun u hu w hw hle => ?_⟩
      · rcases List.mem_cons.1 hw with rfl | hw
        · exact .refl
        · rw [hself, hstack w hw] at hle
          exact absurd (h.rank_lt w (h.met_of_stack hw)) (Nat.not_lt.2 hle)
      · rcases List.mem_cons.1 hw with rfl | hw
        · exact hpath u hu
        · rw [hstack u (h.path_stack u hu), hstack w hw] at hle
          exact h.path_reaches u hu w hw hle
    component := h.component }

end Inv

/-! ## Between two edges of a node -/

variable {s₀ s' : Search} {done : List Nat}

/-- Marks made before a certain time stay as they are. -/
def Keeps (s s' : Search) : Prop :=
  ∀ v, s.Met v → s'.mark v = s.mark v

/-- A node that was met stays met. -/
theorem Keeps.met (h : Keeps s s') (hv : s.Met v) : s'.Met v := by
  rw [Met, h v hv]
  exact hv

/-- A node that was met keeps its rank. -/
theorem Keeps.rank (h : Keeps s s') (hv : s.Met v) : s'.rank v = s.rank v := by
  rw [Search.rank, h v hv, Search.rank]

/-- A node that was met keeps the least rank that is seen from it. -/
theorem Keeps.low (h : Keeps s s') (hv : s.Met v) : s'.low v = s.low v := by
  rw [Search.low, h v hv, Search.low]

/-- Marks that are kept twice are kept. -/
theorem Keeps.trans {s'' : Search} (h : Keeps s s') (h' : Keeps s' s'') : Keeps s s'' :=
  fun v hv => (h' v (h.met hv)).trans (h v hv)

/-- Edges from the nodes to what lay on the stack before lead to ranks no less than the bound. -/
def BoundsEdges (g : Digraph) (s₀ s : Search) (bound : Nat) (nodes : List Nat) : Prop :=
  ∀ x ∈ nodes, ∀ y ∈ s₀.stack, g.Edge x y → bound ≤ s.rank y

/-- What a visit of a node comes to. -/
structure Visits (g : Digraph) (path : List Nat) (v : Nat) (s₀ s : Search) : Prop where
  inv : Inv g path s
  keeps : Keeps s₀ s
  met : s.Met v
  next_le : s₀.next ≤ s.next
  next_le_rank : s₀.next ≤ s.rank v
  low_reached : s.low v = s.rank v ∨ ∃ y ∈ s.stack, s.rank y = s.low v ∧ g.Reaches v y
  segment : ∃ above, s.stack = above ++ s₀.stack ∧ BoundsEdges g s₀ s (s.low v) above

/-- What holds when the edges of a node to some of its targets were followed and the given rank is the
least that they show. -/
structure Following (g : Digraph) (path : List Nat) (v : Nat) (s₀ : Search) (done : List Nat)
    (s : Search) (low : Nat) : Prop where
  inv₀ : Inv g path s₀
  inv : Inv g (v :: path) s
  new : ¬ s₀.Met v
  keeps : Keeps s₀ s
  rank_eq : s.rank v = s₀.next
  low_le : low ≤ s.rank v
  low_reached : ∃ y ∈ s.stack, s.rank y = low ∧ g.Reaches v y
  segment : ∃ above, s.stack = above ++ v :: s₀.stack ∧ BoundsEdges g s₀ s low above
  done_met : ∀ w ∈ done, s.Met w
  done_low : ∀ w ∈ done, w ∈ s₀.stack → low ≤ s.rank w

/-- A node that was just met is followed to no target yet. -/
theorem Inv.following (h : Inv g path s) (hv : v < g.size) (hnew : ¬ s.Met v)
    (hpath : ∀ u ∈ path, g.Reaches u v) :
    Following g path v s [] (s.entered v) ((s.entered v).low v) := by
  have hv' : v < s.marks.size := h.size.symm ▸ hv
  have hself : (s.entered v).mark v = ⟨some s.next, s.next, true⟩ := by
    rw [mark_entered hv', if_pos rfl]
  have hrank : (s.entered v).rank v = s.next := by rw [Search.rank, hself]; rfl
  have hlow : (s.entered v).low v = s.next := by rw [Search.low, hself]
  exact {
    inv₀ := h
    inv := h.entered hv hnew hpath
    new := hnew
    keeps := fun u hu => by
      have hne : u ≠ v := by rintro rfl; exact hnew hu
      rw [mark_entered hv', if_neg hne]
    rank_eq := hrank
    low_le := by rw [hrank, hlow]
    low_reached := ⟨v, List.mem_cons_self, by rw [hrank, hlow], .refl⟩
    segment := ⟨[], rfl, nofun⟩
    done_met := nofun
    done_low := nofun }

namespace Following

variable {low : Nat}

/-- The node whose edges are followed lies on the stack. -/
theorem mem_stack (h : Following g path v s₀ done s low) : v ∈ s.stack :=
  h.inv.path_stack v List.mem_cons_self

/-- The node whose edges are followed was met. -/
theorem met (h : Following g path v s₀ done s low) : s.Met v :=
  h.inv.met_of_stack h.mem_stack

/-- What lay on the stack before the node stays there. -/
theorem mem_stack_of_below (h : Following g path v s₀ done s low) (hw : w ∈ s₀.stack) :
    w ∈ s.stack := by
  obtain ⟨above, hstack, _⟩ := h.segment
  rw [hstack]
  exact List.mem_append_right _ (List.mem_cons_of_mem v hw)

/-- The least rank that was shown is noted in the low mark. -/
theorem lowered {rank : Nat} (h : Following g path v s₀ done s (min (s.low v) rank)) :
    Following g path v s₀ done (s.lowered v rank) ((s.lowered v rank).low v) := by
  have hv : v < s.marks.size := h.met.lt
  rw [low_lowered hv]
  exact {
    inv₀ := h.inv₀
    inv := h.inv.lowered hv rank
    new := h.new
    keeps := fun u hu => by
      have hne : u ≠ v := by rintro rfl; exact h.new hu
      rw [mark_lowered_of_ne hne hv]
      exact h.keeps u hu
    rank_eq := (rank_lowered hv rank v).trans h.rank_eq
    low_le := by rw [rank_lowered hv]; exact h.low_le
    low_reached := by simp only [rank_lowered hv]; exact h.low_reached
    segment := by simp only [BoundsEdges, rank_lowered hv]; exact h.segment
    done_met := by simp only [met_lowered hv]; exact h.done_met
    done_low := by simp only [rank_lowered hv]; exact h.done_low }

/-- An edge to a node on the stack shows its rank. -/
theorem to_stack (h : Following g path v s₀ done s low) (hedge : g.Edge v w) (hw : w ∈ s.stack) :
    Following g path v s₀ (done ++ [w]) s (min low (s.rank w)) where
  inv₀ := h.inv₀
  inv := h.inv
  new := h.new
  keeps := h.keeps
  rank_eq := h.rank_eq
  low_le := (Nat.min_le_left _ _).trans h.low_le
  low_reached := by
    rcases Nat.le_total low (s.rank w) with hle | hle
    · rw [Nat.min_eq_left hle]
      exact h.low_reached
    · rw [Nat.min_eq_right hle]
      exact ⟨w, hw, rfl, .single hedge⟩
  segment := by
    obtain ⟨above, hstack, hbound⟩ := h.segment
    exact ⟨above, hstack, fun x hx y hy he => (Nat.min_le_left _ _).trans (hbound x hx y hy he)⟩
  done_met := List.forall_mem_append.2
    ⟨h.done_met, List.forall_mem_singleton.2 (h.inv.met_of_stack hw)⟩
  done_low := List.forall_mem_append.2
    ⟨fun u hu hbelow => (Nat.min_le_left _ _).trans (h.done_low u hu hbelow),
      List.forall_mem_singleton.2 fun _ => Nat.min_le_right _ _⟩

/-- An edge to a node of a component that was found shows nothing. -/
theorem to_found (h : Following g path v s₀ done s low) (hmet : s.Met w) (hw : w ∉ s.stack) :
    Following g path v s₀ (done ++ [w]) s low :=
  { h with
    done_met := List.forall_mem_append.2 ⟨h.done_met, List.forall_mem_singleton.2 hmet⟩
    done_low := List.forall_mem_append.2
      ⟨h.done_low, List.forall_mem_singleton.2 fun hbelow => absurd (h.mem_stack_of_below hbelow) hw⟩ }

/-- An edge to a node that was not met shows the low mark that the visit of the node leaves. -/
theorem to_visited (h : Following g path v s₀ done s low) (hedge : g.Edge v w) (hnew : ¬ s.Met w)
    (hvisit : Visits g (v :: path) w s s') :
    Following g path v s₀ (done ++ [w]) s' (min low (s'.low w)) := by
  have hrank : ∀ u ∈ s.stack, s'.rank u = s.rank u := fun u hu =>
    hvisit.keeps.rank (h.inv.met_of_stack hu)
  have hbelow : ∀ u ∈ s₀.stack, s'.rank u = s.rank u := fun u hu =>
    hrank u (h.mem_stack_of_below hu)
  obtain ⟨above, hstack, hbound⟩ := h.segment
  obtain ⟨above', hstack', hbound'⟩ := hvisit.segment
  exact {
    inv₀ := h.inv₀
    inv := hvisit.inv
    new := h.new
    keeps := h.keeps.trans hvisit.keeps
    rank_eq := (hrank v h.mem_stack).trans h.rank_eq
    low_le := by
      rw [hrank v h.mem_stack]
      exact (Nat.min_le_left _ _).trans h.low_le
    low_reached := by
      rcases Nat.lt_or_ge (s'.low w) low with hlt | hle
      · rw [Nat.min_eq_right (Nat.le_of_lt hlt)]
        rcases hvisit.low_reached with hself | ⟨y, hy, hyrank, hr⟩
        · -- A component was closed there, so nothing below the new node was shown.
          have := h.inv.rank_lt v h.met
          have := hvisit.next_le_rank
          have := h.low_le
          omega
        · exact ⟨y, hy, hyrank, .head hedge hr⟩
      · rw [Nat.min_eq_left hle]
        obtain ⟨y, hy, hyrank, hr⟩ := h.low_reached
        refine ⟨y, ?_, (hrank y hy).trans hyrank, hr⟩
        rw [hstack']
        exact List.mem_append_right _ hy
    segment := by
      refine ⟨above' ++ above, by rw [hstack', hstack, List.append_assoc], fun x hx y hy he => ?_⟩
      rcases List.mem_append.1 hx with hx | hx
      · exact (Nat.min_le_right _ _).trans (hbound' x hx y (h.mem_stack_of_below hy) he)
      · rw [hbelow y hy]
        exact (Nat.min_le_left _ _).trans (hbound x hx y hy he)
    done_met := List.forall_mem_append.2
      ⟨fun u hu => hvisit.keeps.met (h.done_met u hu), List.forall_mem_singleton.2 hvisit.met⟩
    done_low := List.forall_mem_append.2
      ⟨fun u hu hu₀ => by
        rw [hbelow u hu₀]
        exact (Nat.min_le_left _ _).trans (h.done_low u hu hu₀),
      List.forall_mem_singleton.2 fun hw₀ =>
        absurd (h.inv.met_of_stack (h.mem_stack_of_below hw₀)) hnew⟩ }

/-! ## Leaving a node -/

/-- What was put on the stack above the node was not met before. -/
theorem not_met_above (h : Following g path v s₀ done s low) {above : List Nat}
    (hstack : s.stack = above ++ v :: s₀.stack) {u : Nat} (hu : u ∈ above ++ [v]) :
    ¬ s₀.Met u := by
  intro hmet
  rcases List.mem_append.1 hu with hu | hu
  · have hlt := (h.inv.rank_lt_of_stack hstack).1 u hu
    have hlt₀ := h.inv₀.rank_lt u hmet
    rw [h.keeps.rank hmet, h.rank_eq] at hlt
    omega
  · exact h.new (List.mem_singleton.1 hu ▸ hmet)

/-- The path up to the node, with the edges of the node all followed. -/
theorem met_of_edge (h : Following g path v s₀ done s low) (hdone : ∀ w, g.Edge v w → w ∈ done)
    {u : Nat} (hu : s.Met u) (hpath : u ∉ path) (hedge : g.Edge u w) : s.Met w := by
  by_cases huv : u = v
  · exact h.done_met w (hdone w (huv ▸ hedge))
  · exact h.inv.met_of_edge u w hu (List.not_mem_cons_of_ne_of_not_mem huv hpath) hedge

/-- A node with a way back below it stays on the stack. -/
theorem stay (h : Following g path v s₀ done s (s.low v)) (hdone : ∀ w, g.Edge v w → w ∈ done)
    (hlt : s.low v < s.rank v) : Visits g path v s₀ s := by
  obtain ⟨above, hstack, hbound⟩ := h.segment
  have hnext : s₀.next < s.next := h.rank_eq ▸ h.inv.rank_lt v h.met
  exact {
    inv := { h.inv with
      path_stack := fun u hu => h.inv.path_stack u (List.mem_cons_of_mem v hu)
      met_of_edge := fun u w hu hpath hedge => h.met_of_edge hdone hu hpath hedge
      stack_reaches := fun w hw => by
        obtain ⟨u, hu, hle, hr⟩ := h.inv.stack_reaches w hw
        rcases List.mem_cons.1 hu with rfl | hu
        · -- The way back from the node itself ends above an earlier node of the path.
          obtain ⟨y, hy, hyrank, hry⟩ := h.low_reached
          obtain ⟨x, hx, hxle, hrx⟩ := h.inv.stack_reaches y hy
          have hne : x ≠ u := by rintro rfl; omega
          exact ⟨x, (List.mem_cons.1 hx).resolve_left hne, by omega, (hr.trans hry).trans hrx⟩
        · exact ⟨u, hu, hle, hr⟩
      path_reaches := fun u hu => h.inv.path_reaches u (List.mem_cons_of_mem v hu) }
    keeps := h.keeps
    met := h.met
    next_le := Nat.le_of_lt hnext
    next_le_rank := Nat.le_of_eq h.rank_eq.symm
    low_reached := .inr h.low_reached
    segment := by
      refine ⟨above ++ [v], by rw [hstack, List.append_cons], fun x hx y hy hedge => ?_⟩
      rcases List.mem_append.1 hx with hx | hx
      · exact hbound x hx y hy hedge
      · exact h.done_low y (hdone y (List.mem_singleton.1 hx ▸ hedge)) hy }

/-- Where the node has no way back below it, edges from what lies above it lead there or to
components that were found. -/
theorem edge_of_closed (h : Following g path v s₀ done s (s.rank v))
    (hdone : ∀ w, g.Edge v w → w ∈ done) {above : List Nat}
    (hstack : s.stack = above ++ v :: s₀.stack) (hbound : BoundsEdges g s₀ s (s.rank v) above)
    {x y : Nat} (hx : x ∈ above ++ [v]) (hedge : g.Edge x y) :
    y ∈ above ++ [v] ∨ y ∈ s.found.flatten := by
  have hxpath : x ∉ path := fun hpath =>
    h.not_met_above hstack hx (h.inv₀.met_of_stack (h.inv₀.path_stack x hpath))
  have hxstack : x ∈ s.stack := by
    rw [hstack, List.append_cons]
    exact List.mem_append_left _ hx
  have hbelow : y ∉ s₀.stack := by
    intro hy
    have hlt := (h.inv.rank_lt_of_stack hstack).2 y hy
    rcases List.mem_append.1 hx with hx | hx
    · exact absurd (hbound x hx y hy hedge) (Nat.not_le.2 hlt)
    · exact absurd (h.done_low y (hdone y (List.mem_singleton.1 hx ▸ hedge)) hy) (Nat.not_le.2 hlt)
  rcases (h.inv.met y).1 (h.met_of_edge hdone (h.inv.met_of_stack hxstack) hxpath hedge) with hy | hy
  · rw [hstack, List.append_cons] at hy
    exact .inl ((List.mem_append.1 hy).resolve_right hbelow)
  · exact .inr hy

/-- Where the node has no way back below it, the stack down to it is its component. -/
theorem isComponent (h : Following g path v s₀ done s (s.rank v))
    (hdone : ∀ w, g.Edge v w → w ∈ done) {above : List Nat}
    (hstack : s.stack = above ++ v :: s₀.stack) (hbound : BoundsEdges g s₀ s (s.rank v) above) :
    g.IsComponent (above ++ [v]) := by
  refine ⟨v, by simp, fun w => ⟨fun hw => ?_, fun hw => ?_⟩⟩
  · have hwstack : w ∈ s.stack := by
      rw [hstack, List.append_cons]
      exact List.mem_append_left _ hw
    have hle : s.rank v ≤ s.rank w := by
      rcases List.mem_append.1 hw with hw | hw
      · exact Nat.le_of_lt ((h.inv.rank_lt_of_stack hstack).1 w hw)
      · exact List.mem_singleton.1 hw ▸ Nat.le_refl _
    refine ⟨h.inv.path_reaches v List.mem_cons_self w hwstack hle, ?_⟩
    obtain ⟨u, hu, _, hr⟩ := h.inv.stack_reaches w hwstack
    rcases List.mem_cons.1 hu with rfl | hu
    · exact hr
    · have hlt := (h.inv.rank_lt_of_stack hstack).2 u (h.inv₀.path_stack u hu)
      exact hr.trans (h.inv.path_reaches u (List.mem_cons_of_mem v hu) v h.mem_stack
        (Nat.le_of_lt hlt))
  · -- A path from the node that leaves the stack above it enters a found component for good.
    have hstay : ∀ u, g.Reaches v u → u ∈ above ++ [v] ∨ u ∈ s.found.flatten := by
      intro u hr
      induction hr with
      | refl => exact .inl (by simp)
      | tail _ hedge ih =>
        rcases ih with hin | hfound
        · exact h.edge_of_closed hdone hstack hbound hin hedge
        · exact .inr (h.inv.found_of_edge _ hfound _ hedge)
    refine (hstay w hw.1).resolve_right fun hfound => ?_
    have hv := h.inv.found_of_reaches hfound hw.2
    exact List.disjoint_of_nodup_append h.inv.nodup h.mem_stack hv

end Following

/-- A node is taken off the stack. -/
def offStack (marks : Array Mark) (v : Nat) (hv : v < marks.size) : Array Mark :=
  marks.setIfInBounds v { marks[v] with onStack := false }

/-- Taking a node off the stack keeps the number of marks. -/
theorem size_offStack {marks : Array Mark} (hv : v < marks.size) :
    (offStack marks v hv).size = marks.size :=
  Array.size_setIfInBounds

/-- Taking a node off the stack keeps the marks of the others. -/
theorem getElem?_offStack {marks : Array Mark} (hv : v < marks.size) (u : Nat) :
    (offStack marks v hv)[u]? =
      if u = v then (marks[u]?).map ({ · with onStack := false }) else marks[u]? := by
  rw [offStack, Array.getElem?_setIfInBounds]
  by_cases hu : v = u
  · subst hu
    simp [hv]
  · rw [if_neg hu, if_neg (Ne.symm hu)]

/-- The stack is popped until the node itself is popped. -/
theorem popThrough_cons {top : Nat} {rest : List Nat} {marks : Array Mark}
    (htop : top < marks.size) :
    popThrough v (top :: rest) marks =
      if top = v then some ([top], rest, offStack marks top htop)
      else (popThrough v rest (offStack marks top htop)).map fun r => (top :: r.1, r.2) := by
  rw [popThrough, Array.getElem?_eq_getElem htop]
  simp only [Option.bind_eq_bind, Option.bind_some]
  split
  · rfl
  · rw [Option.map_eq_bind]
    rfl

/-- Taking the nodes down to one off a stack takes exactly those off it. -/
theorem popThrough_eq {above : List Nat} (below : List Nat) {marks : Array Mark} (hv : v ∉ above)
    (hlt : ∀ u ∈ above ++ [v], u < marks.size) :
    ∃ marks', popThrough v (above ++ v :: below) marks = some (above ++ [v], below, marks') ∧
      marks'.size = marks.size ∧
      ∀ u, marks'[u]? = if u ∈ above ++ [v] then (marks[u]?).map ({ · with onStack := false })
        else marks[u]? := by
  induction above generalizing marks with
  | nil =>
    have hv' : v < marks.size := hlt v (by simp)
    refine ⟨offStack marks v hv', ?_, size_offStack hv', fun u => ?_⟩
    · rw [List.nil_append, popThrough_cons hv', if_pos rfl]
      rfl
    · simp [getElem?_offStack hv']
  | cons top above ih =>
    have htop : top < marks.size := hlt top (by simp)
    have hne : top ≠ v := fun h => hv (h ▸ List.mem_cons_self)
    have hlt' : ∀ u ∈ above ++ [v], u < (offStack marks top htop).size := fun u hu => by
      rw [size_offStack]
      exact hlt u (List.mem_cons_of_mem top hu)
    obtain ⟨marks', hpop, hsize, hmarks⟩ := ih (fun h => hv (List.mem_cons_of_mem top h)) hlt'
    refine ⟨marks', ?_, hsize.trans (size_offStack htop), fun u => ?_⟩
    · rw [List.cons_append, popThrough_cons htop, if_neg hne, hpop]
      rfl
    · rw [hmarks, getElem?_offStack htop, List.cons_append]
      by_cases hin : u ∈ above ++ [v]
      · rw [if_pos hin, if_pos (List.mem_cons_of_mem top hin)]
        split <;> simp [Function.comp_def]
      · rw [if_neg hin]
        by_cases hu : u = top
        · rw [if_pos hu, if_pos (hu ▸ List.mem_cons_self)]
        · rw [if_neg hu, if_neg (List.not_mem_cons_of_ne_of_not_mem hu hin)]

namespace Following

/-- A node with no way back below it closes its component. -/
theorem close (h : Following g path v s₀ done s (s.rank v)) (hdone : ∀ w, g.Edge v w → w ∈ done)
    (hlow : s.low v = s.rank v) {above : List Nat} (hstack : s.stack = above ++ v :: s₀.stack)
    (hbound : BoundsEdges g s₀ s (s.rank v) above) (hsize : s'.marks.size = s.marks.size)
    (hstack' : s'.stack = s₀.stack) (hnext : s'.next = s.next)
    (hfound : s'.found = (above ++ [v]) :: s.found)
    (hmark : ∀ u, s'.mark u =
      if u ∈ above ++ [v] then { s.mark u with onStack := false } else s.mark u) :
    Visits g path v s₀ s' := by
  have hranks : ∀ u, (s'.mark u).rank = (s.mark u).rank := fun u => by rw [hmark]; split <;> rfl
  have hmet : ∀ u, s'.Met u ↔ s.Met u := fun u => by rw [Met, Met, hranks]
  have hrank : ∀ u, s'.rank u = s.rank u := fun u => by rw [Search.rank, Search.rank, hranks]
  have hlow' : s'.low v = s'.rank v := by
    rw [hrank, ← hlow, Search.low, Search.low, hmark]
    split <;> rfl
  have hstack₁ : s.stack = (above ++ [v]) ++ s₀.stack := by rw [hstack, List.append_cons]
  have hdisjoint : ∀ u ∈ above ++ [v], u ∉ s₀.stack := fun u hu hu₀ =>
    h.not_met_above hstack hu (h.inv₀.met_of_stack hu₀)
  have hbelow : ∀ u ∈ s₀.stack, u ∈ s.stack := fun u hu => h.mem_stack_of_below hu
  have hnodup := h.inv.nodup
  rw [hstack₁, List.append_assoc] at hnodup
  have hsorted := h.inv.sorted
  rw [hstack₁, List.pairwise_append] at hsorted
  have hnext₀ : s₀.next < s.next := h.rank_eq ▸ h.inv.rank_lt v h.met
  exact {
    inv := {
      size := hsize.trans h.inv.size
      onStack := fun u => by
        rw [hmark, hstack']
        split
        next hu => simp [hdisjoint u hu]
        next hu => rw [h.inv.onStack, hstack₁, List.mem_append, or_iff_right hu]
      met := fun u => by
        rw [hmet, h.inv.met, hstack', hfound, hstack₁, List.flatten_cons, List.mem_append,
          List.mem_append (s := above ++ [v])]
        tauto
      nodup := by
        rw [hstack', hfound, List.flatten_cons]
        exact (List.perm_append_comm_assoc _ _ _).nodup hnodup
      rank_lt := fun u hu => by
        rw [hrank, hnext]
        exact h.inv.rank_lt u ((hmet u).1 hu)
      sorted := by
        rw [hstack']
        simp only [hrank]
        exact hsorted.2.1
      path_stack := fun u hu => hstack' ▸ h.inv₀.path_stack u hu
      met_of_edge := fun u w hu hpath hedge =>
        (hmet w).2 (h.met_of_edge hdone ((hmet u).1 hu) hpath hedge)
      found_of_edge := fun u hu w hedge => by
        rw [hfound, List.flatten_cons, List.mem_append] at hu ⊢
        rcases hu with hu | hu
        · exact h.edge_of_closed hdone hstack hbound hu hedge
        · exact .inr (h.inv.found_of_edge u hu w hedge)
      stack_reaches := fun w hw => by
        rw [hstack'] at hw
        obtain ⟨u, hu, hle, hr⟩ := h.inv.stack_reaches w (hbelow w hw)
        have hlt := (h.inv.rank_lt_of_stack hstack).2 w hw
        have hne : u ≠ v := by rintro rfl; omega
        exact ⟨u, (List.mem_cons.1 hu).resolve_left hne, by rw [hrank, hrank]; exact hle, hr⟩
      path_reaches := fun u hu w hw hle => by
        rw [hstack'] at hw
        rw [hrank, hrank] at hle
        exact h.inv.path_reaches u (List.mem_cons_of_mem v hu) w (hbelow w hw) hle
      component := by
        rw [hfound]
        exact List.forall_mem_cons.2
          ⟨h.isComponent hdone hstack hbound, h.inv.component⟩ }
    keeps := fun u hu => by
      rw [hmark, if_neg fun hin => h.not_met_above hstack hin hu]
      exact h.keeps u hu
    met := (hmet v).2 h.met
    next_le := by omega
    next_le_rank := by rw [hrank, h.rank_eq]
    low_reached := .inl hlow'
    segment := ⟨[], hstack', nofun⟩ }

/-- Leaving a node whose edges were all followed ends its visit. -/
theorem leave (h : Following g path v s₀ done s (s.low v)) (hdone : ∀ w, g.Edge v w → w ∈ done) :
    ∃ s', s.leave? v = some s' ∧ Visits g path v s₀ s' := by
  rw [leave?, mark?_eq h.met.lt, Option.bind_eq_bind, Option.bind_some, h.met.rank_eq]
  by_cases heq : s.low v = s.rank v
  · obtain ⟨above, hstack, hbound⟩ := h.segment
    have hv : v ∉ above := fun hv => by
      have := (h.inv.rank_lt_of_stack hstack).1 v hv
      omega
    have hlt : ∀ u ∈ above ++ [v], u < s.marks.size := fun u hu => by
      refine (h.inv.met_of_stack ?_).lt
      rw [hstack, List.append_cons]
      exact List.mem_append_left _ hu
    obtain ⟨marks, hpop, hsize, hmarks⟩ := popThrough_eq s₀.stack hv hlt
    have hcond : some (s.mark v).low = some (s.rank v) := congrArg some heq
    rw [if_pos hcond, hstack, hpop]
    refine ⟨_, rfl, (heq ▸ h).close hdone heq hstack (heq ▸ hbound) hsize rfl rfl rfl fun u => ?_⟩
    simp only [mark, mark?, hmarks]
    split
    · cases s.marks[u]? <;> rfl
    · rfl
  · have hne : ¬ some (s.mark v).low = some (s.rank v) := fun hsome => heq (Option.some.inj hsome)
    rw [if_neg hne]
    exact ⟨s, rfl, h.stay hdone (Nat.lt_of_le_of_ne h.low_le heq)⟩

end Following

end Search

end Oxidize.Digraph
