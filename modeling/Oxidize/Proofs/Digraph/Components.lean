import Mathlib.Data.List.Perm.Basic
import Oxidize.Proofs.Digraph.Search

/-!
# A component search finds the components

On a graph whose edges all lead to nodes every look-up of a search succeeds and no visit nests too
deep, since each of them meets another node. So a visit has a result, and the result is a
visit in the sense of `Search.Visits` (`visit_visits`). After all nodes are visited the stack is
empty and each node is in one of the components found: `components?_eq_some`.

`cycles?_eq_some` then tells which of them are kept: those on a cycle, which are the classes with
several nodes or with an edge from a node to itself.
-/

namespace Oxidize.Digraph

open Relation Search

variable {g : Digraph} {path : List Nat} {v : Nat} {s s₀ : Search}

/-- Edges start at nodes. -/
theorem Edge.lt_size {v w : Nat} (h : g.Edge v w) : v < g.size := by
  obtain ⟨targets, htargets, _⟩ := h
  exact (Array.getElem?_eq_some_iff.1 htargets).1

/-! ## The kinds of edges -/

section

variable {visit : Nat → Search → Option Search} {w : Nat} {targets : List Nat}

/-- An edge to a node on the stack lowers the rank. -/
theorem follow_cons_onStack (hv : v < s.marks.size) (hmet : s.Met w)
    (hon : (s.mark w).onStack = true) :
    follow visit v (w :: targets) s = follow visit v targets (s.lowered v (s.rank w)) := by
  rw [follow, mark?_eq hmet.lt]
  simp only [Option.bind_eq_bind, Option.bind_some, hmet.rank_eq, hon, if_true, lower?_eq hv]

/-- An edge to a node of a finished component changes nothing. -/
theorem follow_cons_offStack (hmet : s.Met w) (hon : ¬ (s.mark w).onStack = true) :
    follow visit v (w :: targets) s = follow visit v targets s := by
  rw [follow, mark?_eq hmet.lt]
  simp only [Option.bind_eq_bind, Option.bind_some, hmet.rank_eq, if_neg hon]

/-- An edge to a node that was not met visits it, and its least rank is taken over. -/
theorem follow_cons_unmet {s' : Search} (hw : w < s.marks.size) (hmet : ¬ s.Met w)
    (hvisit : visit w s = some s') (hw' : w < s'.marks.size) (hv' : v < s'.marks.size) :
    follow visit v (w :: targets) s = follow visit v targets (s'.lowered v (s'.low w)) := by
  have hrank : (s.mark w).rank = none := not_not.1 hmet
  rw [follow, mark?_eq hw]
  simp only [Option.bind_eq_bind, Option.bind_some, hrank, hvisit, mark?_eq hw', lower?_eq hv', low]

end

/-! ## Visits -/

/-- Following edges to targets, if visits of targets succeed while little enough is left. -/
theorem follow_following {visit : Nat → Search → Option Search} {depth : Nat}
    (hvisit : ∀ w s, Inv g (v :: path) s → w < g.size → ¬ s.Met w →
      (∀ u ∈ v :: path, g.Reaches u w) → s.unmet.card ≤ depth →
      ∃ s', visit w s = some s' ∧ Visits g (v :: path) w s s')
    (hg : g.InRange) (hpath : ∀ u ∈ path, g.Reaches u v) {done targets : List Nat}
    (hedge : ∀ w ∈ targets, g.Edge v w) (h : Following g path v s₀ done s (s.low v))
    (hdepth : s.unmet.card ≤ depth) :
    ∃ s', follow visit v targets s = some s' ∧
      Following g path v s₀ (done ++ targets) s' (s'.low v) := by
  induction targets generalizing done s with
  | nil => exact ⟨s, rfl, by rwa [List.append_nil]⟩
  | cons w targets ih =>
    have hvw : g.Edge v w := hedge w List.mem_cons_self
    have hrest : ∀ u ∈ targets, g.Edge v u := fun u hu => hedge u (List.mem_cons_of_mem w hu)
    have hw : w < s.marks.size := h.inv.size.symm ▸ hg v w hvw
    rw [List.append_cons]
    by_cases hmet : s.Met w
    · by_cases hstack : w ∈ s.stack
      · rw [follow_cons_onStack h.met.lt hmet ((h.inv.onStack w).2 hstack)]
        have hunmet : (s.lowered v (s.rank w)).unmet ⊆ s.unmet :=
          unmet_subset Array.size_setIfInBounds fun u hu => (met_lowered h.met.lt _ u).2 hu
        exact ih hrest (h.to_stack hvw hstack).lowered ((Finset.card_le_card hunmet).trans hdepth)
      · rw [follow_cons_offStack hmet fun hon => hstack ((h.inv.onStack w).1 hon)]
        exact ih hrest (h.to_found hmet hstack) hdepth
    · have hreaches : ∀ u ∈ v :: path, g.Reaches u w := List.forall_mem_cons.2
        ⟨.single hvw, fun u hu => (hpath u hu).tail hvw⟩
      obtain ⟨s', hs', hvisits⟩ := hvisit w s h.inv (hg v w hvw) hmet hreaches hdepth
      have hv' : v < s'.marks.size := (hvisits.keeps.met h.met).lt
      have hlow : s'.low v = s.low v := hvisits.keeps.low h.met
      have hfollowing := h.to_visited hvw hmet hvisits
      rw [← hlow] at hfollowing
      have hunmet : (s'.lowered v (s'.low w)).unmet ⊆ s.unmet := by
        refine unmet_subset ?_ fun u hu => (met_lowered hv' _ u).2 (hvisits.keeps.met hu)
        exact (Array.size_setIfInBounds.trans hvisits.inv.size).trans h.inv.size.symm
      rw [follow_cons_unmet hw hmet hs' hvisits.met.lt hv']
      exact ih hrest hfollowing.lowered ((Finset.card_le_card hunmet).trans hdepth)

/-- A visit of a node that was not met succeeds if it may nest as deep as nodes are left. -/
theorem visit_visits (hg : g.InRange) {depth : Nat} (h : Inv g path s) (hv : v < g.size)
    (hnew : ¬ s.Met v) (hpath : ∀ u ∈ path, g.Reaches u v) (hdepth : s.unmet.card ≤ depth) :
    ∃ s', g.visit depth v s = some s' ∧ Visits g path v s s' := by
  induction depth generalizing path v s with
  | zero =>
    have hmem : v ∈ s.unmet := mem_unmet.2 ⟨h.size.symm ▸ hv, hnew⟩
    exact absurd hdepth (Nat.not_le.2 (Finset.card_pos.2 ⟨v, hmem⟩))
  | succ depth ih =>
    have hv' : v < s.marks.size := h.size.symm ▸ hv
    obtain ⟨targets, htargets⟩ : ∃ targets, g.targets[v]? = some targets :=
      ⟨_, Array.getElem?_eq_getElem hv⟩
    have hentered := h.following hv hnew hpath
    -- The node is no longer among those left.
    have hunmet : (s.entered v).unmet.card ≤ depth := by
      have hssub : (s.entered v).unmet ⊂ s.unmet := by
        refine (Finset.ssubset_iff_of_subset (unmet_subset Array.size_setIfInBounds
          fun u hu => hentered.keeps.met hu)).2 ⟨v, mem_unmet.2 ⟨hv', hnew⟩, fun hin => ?_⟩
        exact (mem_unmet.1 hin).2 hentered.met
      exact Nat.le_of_lt_succ ((Finset.card_lt_card hssub).trans_le hdepth)
    obtain ⟨s', hs', hfollowing⟩ := follow_following
      (fun w s hs hw hnew hpath hdepth => ih hs hw hnew hpath hdepth) hg hpath
      (fun w hw => ⟨targets, htargets, hw⟩) hentered hunmet
    rw [List.nil_append] at hfollowing
    obtain ⟨s'', hs'', hvisits⟩ := hfollowing.leave fun w ⟨ts, hts, hw⟩ => by
      rw [htargets] at hts
      exact Option.some.inj hts ▸ hw
    refine ⟨s'', ?_, hvisits⟩
    rw [visit, enter?_eq hv', htargets]
    simp only [Option.bind_eq_bind, Option.bind_some, hs', hs'']

/-- Visiting nodes in turn meets all of them. -/
theorem visitAll_inv (hg : g.InRange) {nodes : List Nat} (hnodes : ∀ v ∈ nodes, v < g.size)
    (h : Inv g [] s) :
    ∃ s', g.visitAll nodes s = some s' ∧ Inv g [] s' ∧ Keeps s s' ∧ ∀ v ∈ nodes, s'.Met v := by
  induction nodes generalizing s with
  | nil => exact ⟨s, rfl, h, fun _ _ => rfl, nofun⟩
  | cons v nodes ih =>
    have hv : v < g.size := hnodes v List.mem_cons_self
    have hrest : ∀ u ∈ nodes, u < g.size := fun u hu => hnodes u (List.mem_cons_of_mem v hu)
    rw [visitAll, mark?_eq (h.size.symm ▸ hv), Option.bind_eq_bind, Option.bind_some]
    by_cases hmet : s.Met v
    · rw [hmet.rank_eq]
      obtain ⟨s', hs', hinv, hkeeps, hall⟩ := ih hrest h
      exact ⟨s', hs', hinv, hkeeps, List.forall_mem_cons.2 ⟨hkeeps.met hmet, hall⟩⟩
    · have hrank : (s.mark v).rank = none := not_not.1 hmet
      have hcard : s.unmet.card ≤ g.size := by
        rw [← h.size, ← Finset.card_range s.marks.size]
        exact Finset.card_filter_le _ _
      obtain ⟨s', hs', hvisits⟩ := visit_visits hg h hv hmet nofun hcard
      obtain ⟨s'', hs'', hinv, hkeeps, hall⟩ := ih hrest hvisits.inv
      refine ⟨s'', ?_, hinv, hvisits.keeps.trans hkeeps,
        List.forall_mem_cons.2 ⟨hkeeps.met hvisits.met, hall⟩⟩
      rw [hrank]
      simp only [hs', Option.bind_eq_bind, Option.bind_some, hs'']

/-! ## Components -/

/-- Nodes that reach each other do so in either order. -/
theorem Connected.symm {v w : Nat} (h : g.Connected v w) : g.Connected w v :=
  ⟨h.2, h.1⟩

/-- Nodes that reach each other through a third one are connected. -/
theorem Connected.trans {u v w : Nat} (huv : g.Connected u v) (hvw : g.Connected v w) :
    g.Connected u w :=
  ⟨huv.1.trans hvw.1, hvw.2.trans huv.2⟩

/-- A component is the class of each of its nodes. -/
theorem IsComponent.mem_iff {nodes : List Nat} (h : g.IsComponent nodes) (hv : v ∈ nodes) (w : Nat) :
    w ∈ nodes ↔ g.Connected v w := by
  obtain ⟨u, _, hclass⟩ := h
  have huv := (hclass v).1 hv
  rw [hclass]
  exact ⟨fun huw => huv.symm.trans huw, fun hvw => huv.trans hvw⟩

/-- **A search finds the components.** On a graph whose edges all lead to nodes it has a result, every
node is in the result once, and the node lists of the result are the components. -/
theorem components?_eq_some (hg : g.InRange) :
    ∃ components, g.components? = some components ∧
      components.flatten.Perm (List.range g.size) ∧ ∀ c ∈ components, g.IsComponent c := by
  obtain ⟨s, hs, hinv, _, hall⟩ :=
    visitAll_inv hg (fun v hv => List.mem_range.1 hv) (Inv.start g)
  -- Without a path there is nothing for the stack to reach.
  have hstack : s.stack = [] := by
    rw [List.eq_nil_iff_forall_not_mem]
    intro v hv
    obtain ⟨u, hu, _⟩ := hinv.stack_reaches v hv
    exact nomatch hu
  have hnodup := hinv.nodup
  rw [hstack, List.nil_append] at hnodup
  refine ⟨s.found.reverse, by rw [components?, hs]; rfl, ?_, fun c hc => ?_⟩
  · refine (List.reverse_perm s.found).flatten.trans ?_
    refine (List.perm_ext_iff_of_nodup hnodup List.nodup_range).2 fun v => ?_
    have hmet := hinv.met v
    rw [hstack] at hmet
    rw [List.mem_range]
    constructor
    · exact fun hv => hinv.size ▸ (hmet.2 (.inr hv)).lt
    · exact fun hv => (hmet.1 (hall v (List.mem_range.2 hv))).resolve_left List.not_mem_nil
  · exact hinv.component c (List.mem_reverse.1 hc)

/-! ## Components with a cycle -/

/-- The nodes of a component lie on a cycle. -/
def IsCyclic (g : Digraph) (nodes : List Nat) : Prop :=
  1 < nodes.length ∨ ∃ v ∈ nodes, g.Edge v v

/-- Whether a component is a cycle can be told. -/
theorem isCyclic?_eq_some {nodes : List Nat} (hne : nodes ≠ []) (hlt : ∀ v ∈ nodes, v < g.size) :
    ∃ cyclic, g.isCyclic? nodes = some cyclic ∧ (cyclic = true ↔ g.IsCyclic nodes) := by
  match nodes with
  | [] => exact absurd rfl hne
  | [v] =>
    obtain ⟨targets, htargets⟩ : ∃ targets, g.targets[v]? = some targets :=
      ⟨_, Array.getElem?_eq_getElem (hlt v List.mem_cons_self)⟩
    exact ⟨targets.contains v, by simp [isCyclic?, htargets], by simp [IsCyclic, Edge, htargets]⟩
  | _ :: _ :: _ => exact ⟨true, by simp [isCyclic?], by simp [IsCyclic]⟩

/-- The components that are cycles are picked out in their order. -/
theorem cyclesAmong?_eq_some {components : List (List Nat)}
    (h : ∀ c ∈ components, c ≠ [] ∧ ∀ v ∈ c, v < g.size) :
    ∃ cycles, g.cyclesAmong? components = some cycles ∧ cycles.Sublist components ∧
      ∀ c, c ∈ cycles ↔ c ∈ components ∧ g.IsCyclic c := by
  induction components with
  | nil => exact ⟨[], rfl, .slnil, by simp⟩
  | cons c components ih =>
    obtain ⟨⟨hne, hlt⟩, hrest⟩ := List.forall_mem_cons.1 h
    obtain ⟨cyclic, hcyclic, hiff⟩ := isCyclic?_eq_some hne hlt
    obtain ⟨cycles, hcycles, hsub, hmem⟩ := ih hrest
    cases cyclic with
    | true =>
      refine ⟨c :: cycles, by simp [cyclesAmong?, hcyclic, hcycles], hsub.cons_cons c, fun d => ?_⟩
      have hc := hiff.1 rfl
      rw [List.mem_cons, List.mem_cons, hmem]
      constructor
      · rintro (rfl | hd)
        · exact ⟨.inl rfl, hc⟩
        · exact ⟨.inr hd.1, hd.2⟩
      · rintro ⟨rfl | hd, hcyc⟩
        · exact .inl rfl
        · exact .inr ⟨hd, hcyc⟩
    | false =>
      refine ⟨cycles, by simp [cyclesAmong?, hcyclic, hcycles], hsub.cons c, fun d => ?_⟩
      have hc : ¬ g.IsCyclic c := fun hc => nomatch hiff.2 hc
      rw [List.mem_cons, hmem]
      constructor
      · exact fun hd => ⟨.inr hd.1, hd.2⟩
      · rintro ⟨rfl | hd, hcyc⟩
        · exact absurd hcyc hc
        · exact ⟨hd, hcyc⟩

/-- The components with a cycle are found: each list of the result is one of them, no node is in the
result twice, and none is missing. -/
theorem cycles?_eq_some (hg : g.InRange) :
    ∃ cycles, g.cycles? = some cycles ∧ cycles.Pairwise List.Disjoint ∧
      (∀ c ∈ cycles, c.Nodup ∧ (∀ v ∈ c, v < g.size) ∧ g.IsComponent c ∧ g.IsCyclic c) ∧
      ∀ c : List Nat, c.Nodup → (∀ v ∈ c, v < g.size) → g.IsComponent c → g.IsCyclic c →
        ∃ d ∈ cycles, d.Perm c := by
  obtain ⟨components, hcomponents, hperm, hall⟩ := components?_eq_some hg
  have hlt : ∀ c ∈ components, ∀ v ∈ c, v < g.size := fun c hc v hv =>
    List.mem_range.1 (hperm.mem_iff.1 (List.mem_flatten.2 ⟨c, hc, hv⟩))
  have hne : ∀ c ∈ components, c ≠ [] := fun c hc => by
    obtain ⟨v, hv, _⟩ := hall c hc
    exact List.ne_nil_of_mem hv
  obtain ⟨hnodup, hdisjoint⟩ := List.nodup_flatten.1 (hperm.nodup_iff.2 List.nodup_range)
  obtain ⟨cycles, hcycles, hsub, hmem⟩ :=
    cyclesAmong?_eq_some fun c hc => ⟨hne c hc, hlt c hc⟩
  refine ⟨cycles, by rw [cycles?, hcomponents]; exact hcycles, hdisjoint.sublist hsub,
    fun c hc => ?_, fun c hcnodup hclt hc hcyclic => ?_⟩
  · obtain ⟨hc, hcyclic⟩ := (hmem c).1 hc
    exact ⟨hnodup c hc, hlt c hc, hall c hc, hcyclic⟩
  · obtain ⟨v, hv, hclass⟩ := hc
    obtain ⟨d, hd, hvd⟩ := List.mem_flatten.1 (hperm.mem_iff.2 (List.mem_range.2 (hclt v hv)))
    have hdc : d.Perm c := (List.perm_ext_iff_of_nodup (hnodup d hd) hcnodup).2 fun w => by
      rw [(hall d hd).mem_iff hvd, hclass]
    refine ⟨d, (hmem d).2 ⟨hd, ?_⟩, hdc⟩
    rcases hcyclic with hlen | ⟨u, hu, hedge⟩
    · exact .inl (hdc.length_eq ▸ hlen)
    · exact .inr ⟨u, hdc.mem_iff.2 hu, hedge⟩

end Oxidize.Digraph
