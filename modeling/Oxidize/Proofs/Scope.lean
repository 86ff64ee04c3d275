import Oxidize.Scope

/-!
# Scopes along a walk

What a pass over a function body does to the bindings: it declares variables in the innermost
frame, and it opens and closes frames of its own. `Bindings.Agree` relates the bindings of two
passes that may differ in frames without names, and `Bindings.Numbered` says that every number in
scope has been given.
-/

namespace Oxidize

namespace Scope

variable {α : Type}

/-- Entering a block hides nothing. -/
@[simp] theorem lookup?_push (s : Scope α) (name : String) : s.push.lookup? name = s.lookup? name :=
  rfl

/-- Entering a block puts the frame so far outside. -/
@[simp] theorem outer_push (s : Scope α) : s.push.outer = s.inner :: s.outer := rfl

/-- A declaration leaves the frames outside as they are. -/
@[simp] theorem outer_declare (s : Scope α) (name : String) (a : α) :
    (s.declare name a).outer = s.outer := rfl

/-- A declaration answers for its own name and hides no other. -/
theorem lookup?_declare (s : Scope α) (name other : String) (a : α) :
    (s.declare name a).lookup? other = if other = name then some a else s.lookup? other := by
  unfold lookup? declare
  rw [List.findSome?_cons, List.findSome?_cons, List.lookup_cons]
  by_cases h : other = name
  · simp [h]
  · have hb : (other == name) = false := by simpa using h
    rw [hb, if_neg h]

/-- A scope whose outer frames are those of a pushed scope pops to the scope before the push. -/
theorem pop_eq_of_outer {s t : Scope α} (h : t.outer = s.push.outer) : t.pop = s := by
  unfold pop
  rw [h, outer_push]

/-- The declarations in scope, the latest first. -/
def entries (s : Scope α) : Frame α :=
  (s.inner :: s.outer).flatten

/-- A name stands for what its latest declaration says. -/
theorem lookup?_eq_entries (s : Scope α) (name : String) :
    s.lookup? name = s.entries.lookup name := by
  have hframes : ∀ frames : List (Frame α),
      frames.findSome? (·.lookup name) = frames.flatten.lookup name := by
    intro frames
    induction frames with
    | nil => rfl
    | cons frame frames ih =>
      rw [List.findSome?_cons, List.flatten_cons, List.lookup_append, ih]
      cases frame.lookup name <;> rfl
  exact hframes (s.inner :: s.outer)

end Scope

namespace Bindings

/-- Entering a block hides nothing. -/
@[simp] theorem lookup?_push (b : Bindings) (name : String) : b.push.lookup? name = b.lookup? name :=
  rfl

/-- Entering a block declares nothing. -/
@[simp] theorem declared_push (b : Bindings) : b.push.declared = b.declared := rfl

/-- What was declared in a block stays numbered behind it. -/
@[simp] theorem declared_pop (b : Bindings) : b.pop.declared = b.declared := rfl

/-- A declaration is numbered behind the earlier ones. -/
@[simp] theorem declared_declare (b : Bindings) (name : String) :
    (b.declare name).declared = b.declared ++ [name] := rfl

/-- A declaration takes a number. -/
@[simp] theorem next_declare (b : Bindings) (name : String) : (b.declare name).next = b.next + 1 := by
  rw [next, declared_declare, List.length_append, next]
  rfl

/-- Leaving a block drops its frame. -/
@[simp] theorem scope_pop (b : Bindings) : b.pop.scope = b.scope.pop := rfl

/-- Entering a block adds a frame. -/
@[simp] theorem scope_push (b : Bindings) : b.push.scope = b.scope.push := rfl

/-- A declaration answers for its own name with the next number and hides no other. -/
theorem lookup?_declare (b : Bindings) (name other : String) :
    (b.declare name).lookup? other = if other = name then some b.next else b.lookup? other :=
  Scope.lookup?_declare _ _ _ _

/-! ## Agreement of two passes -/

/-- Every name has the same number in both, and both have numbered the same declarations. -/
structure Agree (b b' : Bindings) : Prop where
  lookup : ∀ name, b.lookup? name = b'.lookup? name
  declared : b.declared = b'.declared

namespace Agree

variable {b b' : Bindings}

/-- Bindings agree with themselves. -/
theorem refl (b : Bindings) : b.Agree b :=
  ⟨fun _ => rfl, rfl⟩

/-- Bindings that agree give the same number next. -/
theorem next (h : b.Agree b') : b.next = b'.next := by
  rw [Bindings.next, Bindings.next, h.declared]

/-- Bindings that agree have the same variables in scope. -/
theorem isLocal (h : b.Agree b') : b.isLocal = b'.isLocal := by
  funext name
  exact congrArg Option.isSome (h.lookup name)

/-- Bindings that agree do so in a block. -/
theorem push (h : b.Agree b') : b.push.Agree b'.push :=
  ⟨h.lookup, h.declared⟩

/-- A frame without declarations makes no difference. -/
theorem push_right (h : b.Agree b') : b.Agree b'.push :=
  ⟨h.lookup, h.declared⟩

/-- Bindings that agree do so after a declaration. -/
theorem declare (h : b.Agree b') (name : String) : (b.declare name).Agree (b'.declare name) := by
  refine ⟨fun other => ?_, by simp [h.declared]⟩
  rw [lookup?_declare, lookup?_declare, h.next, h.lookup]

/-- Bindings whose scopes are those of agreeing bindings agree once they have numbered the same
declarations. -/
theorem of_scope (h : b.Agree b') {c c' : Bindings} (hc : c.scope = b.scope)
    (hc' : c'.scope = b'.scope) (hd : c.declared = c'.declared) : c.Agree c' := by
  refine ⟨fun name => ?_, hd⟩
  rw [lookup?, lookup?, hc, hc']
  exact h.lookup name

end Agree

/-! ## Numbers in scope -/

/-- Every number in scope has been given. -/
def Numbered (b : Bindings) : Prop :=
  ∀ frame ∈ b.scope.inner :: b.scope.outer, ∀ v ∈ frame, v.2 < b.next

/-- At the start no number is in scope. -/
theorem numbered_empty : Bindings.empty.Numbered := by
  intro frame hframe v hv
  simp only [empty, Scope.empty, List.mem_singleton] at hframe
  subst hframe
  cases hv

/-- Entering a block brings no number into scope. -/
theorem Numbered.push {b : Bindings} (h : b.Numbered) : b.push.Numbered := by
  intro frame hframe v hv
  rcases List.mem_cons.1 hframe with rfl | hframe
  · cases hv
  · exact h frame hframe v hv

/-- Leaving a block brings no number into scope. -/
theorem Numbered.pop {b : Bindings} (h : b.Numbered) : b.pop.Numbered := by
  intro frame hframe v hv
  refine h frame ?_ v hv
  cases hs : b.scope.outer with
  | nil => simpa only [scope_pop, Scope.pop, hs] using hframe
  | cons f rest =>
    simp only [scope_pop, Scope.pop, hs] at hframe
    exact List.mem_cons_of_mem _ hframe

/-- The number of a declaration is given with it. -/
theorem Numbered.declare {b : Bindings} (h : b.Numbered) (name : String) :
    (b.declare name).Numbered := by
  have hnext : (b.declare name).next = b.next + 1 := by simp [next]
  intro frame hframe v hv
  rw [hnext]
  rcases List.mem_cons.1 hframe with rfl | hframe
  · rcases List.mem_cons.1 hv with rfl | hv
    · exact Nat.lt_succ_self _
    · exact Nat.lt_succ_of_lt (h _ (.head _) v hv)
  · exact Nat.lt_succ_of_lt (h frame (.tail _ hframe) v hv)

/-- A name that refers to a binding refers to a number that has been given. -/
theorem Numbered.lookup_lt {b : Bindings} (h : b.Numbered) {name : String} {id : BindingId}
    (hl : b.lookup? name = some id) : id < b.next := by
  obtain ⟨frame, hframe, hl⟩ := List.exists_of_findSome?_eq_some hl
  obtain ⟨before, after, rfl, -⟩ := List.lookup_eq_some_iff.1 hl
  exact h _ hframe (name, id) (by simp)

end Bindings

end Oxidize
