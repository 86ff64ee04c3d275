import Oxidize.Proofs.Scope

/-!
# Scopes and their histories

The types and the numbers of the local variables are kept in two chains of scopes, which go through
the same operations. `Chains.lookup_visible` says what a look-up in them returns, whatever the
operations before it were: what was recorded by the latest declaration of the name among those whose
frame is still open. Which frames are open the history alone tells. `ScopeOp.level` counts frames,
and a frame is open as long as the level has not fallen below its own (`ScopeOp.StaysOpen`); a `pop`
on the outermost level does not lower it.
-/

namespace Oxidize

/-- An operation on chains of scopes. A declaration gives the type of the name. -/
inductive ScopeOp where
  | push
  | pop
  | declare (name : String) (ty : Ty)

/-- The types and the numbers of the local variables. -/
structure Chains where
  types : Env
  bindings : Bindings

namespace Chains

/-- No variable yet. -/
def fresh : Chains :=
  ⟨.empty, .empty⟩

/-- An operation on both chains. -/
def step (c : Chains) : ScopeOp → Chains
  | .push => ⟨c.types.push, c.bindings.push⟩
  | .pop => ⟨c.types.pop, c.bindings.pop⟩
  | .declare name ty => ⟨c.types.declare name ty, c.bindings.declare name⟩

/-- Operations in order. -/
def run (c : Chains) (ops : List ScopeOp) : Chains :=
  ops.foldl step c

/-- The numbers that the declarations among the operations get, in order. -/
def numbers (c : Chains) : List ScopeOp → List BindingId
  | [] => []
  | .declare name ty :: ops => c.bindings.next :: (c.step (.declare name ty)).numbers ops
  | op :: ops => (c.step op).numbers ops

/-- Operations in a row run one after the other. -/
theorem run_append (c : Chains) (ops ops' : List ScopeOp) :
    c.run (ops ++ ops') = (c.run ops).run ops' :=
  List.foldl_append

end Chains

namespace ScopeOp

/-- A declaration. -/
def isDeclare : ScopeOp → Bool
  | .declare _ _ => true
  | _ => false

/-- How many declarations there are among the operations. -/
def declarations (ops : List ScopeOp) : Nat :=
  ops.countP isDeclare

/-- The first operation counts if it is a declaration. -/
theorem declarations_cons (op : ScopeOp) (ops : List ScopeOp) :
    declarations (op :: ops) = declarations ops + if op.isDeclare then 1 else 0 :=
  List.countP_cons

/-! ## Open frames -/

/-- How many frames there are around the innermost one, after an operation. -/
def level (n : Nat) : ScopeOp → Nat
  | .push => n + 1
  | .pop => n - 1
  | .declare _ _ => n

/-- The level after operations that start at the level `n`. -/
def levelFrom (n : Nat) (ops : List ScopeOp) : Nat :=
  ops.foldl level n

/-- The level never falls below that of a frame. -/
def StaysOpen (frame : Nat) : Nat → List ScopeOp → Prop
  | n, [] => frame ≤ n
  | n, op :: ops => frame ≤ n ∧ StaysOpen frame (op.level n) ops

/-- After the operations `before` the history declares the name, and the frame of the declaration is
still open at the end. -/
def DeclaresOpen (ops : List ScopeOp) (name : String) (before : List ScopeOp) (ty : Ty) : Prop :=
  ∃ after, ops = before ++ .declare name ty :: after ∧
    StaysOpen (levelFrom 0 before) (levelFrom 0 before) after

/-- What a name stands for at the end of a history: the type and the number of the latest one among
its declarations in open frames. Numbers count declarations, in closed frames as in open ones. -/
inductive Visible (ops : List ScopeOp) (name : String) : Option Ty → Option BindingId → Prop where
  | declared {before : List ScopeOp} {ty : Ty} (h : DeclaresOpen ops name before ty)
      (hlatest : ∀ before' ty', DeclaresOpen ops name before' ty' →
        before'.length ≤ before.length) :
    Visible ops name (some ty) (some (declarations before))
  | undeclared (h : ∀ before ty, ¬ DeclaresOpen ops name before ty) : Visible ops name none none

/-- Every frame that the operations open they close, and they close no other. -/
inductive WellNested : List ScopeOp → Prop where
  | nil : WellNested []
  | declare (name : String) (ty : Ty) {ops : List ScopeOp} (h : WellNested ops) :
    WellNested (.declare name ty :: ops)
  | nest {inner ops : List ScopeOp} (hinner : WellNested inner) (h : WellNested ops) :
    WellNested (.push :: inner ++ .pop :: ops)

variable {ops inner after : List ScopeOp} {name : String} {frame n : Nat}

/-- Operations in a row start on the level that the earlier ones end on. -/
theorem levelFrom_append (n : Nat) (ops ops' : List ScopeOp) :
    levelFrom n (ops ++ ops') = levelFrom (levelFrom n ops) ops' :=
  List.foldl_append

/-- A frame stays open under operations in a row if it does under both parts. -/
theorem staysOpen_append {ops' : List ScopeOp} :
    StaysOpen frame n (ops ++ ops') ↔
      StaysOpen frame n ops ∧ StaysOpen frame (levelFrom n ops) ops' := by
  induction ops generalizing n with
  | nil =>
    refine ⟨fun h => ⟨?_, h⟩, And.right⟩
    cases ops' with
    | nil => exact h
    | cons => exact h.1
  | cons op ops ih => rw [List.cons_append, StaysOpen, StaysOpen, ih, and_assoc]; rfl

/-- A frame that stays open is open at the end. -/
theorem StaysOpen.le (h : StaysOpen frame n ops) : frame ≤ levelFrom n ops := by
  induction ops generalizing n with
  | nil => exact h
  | cons op ops ih => exact ih h.2

/-- A frame above an open one is open too. -/
theorem StaysOpen.mono {outer : Nat} (h : StaysOpen frame n ops) (hle : outer ≤ frame) :
    StaysOpen outer n ops := by
  induction ops generalizing n with
  | nil => exact Nat.le_trans hle h
  | cons op ops ih => exact ⟨Nat.le_trans hle h.1, ih h.2⟩

/-! ## Well-nested operations -/

namespace WellNested

/-- Well-nested operations in a row are well nested. -/
theorem append {ops' : List ScopeOp} (h : WellNested ops) (h' : WellNested ops') :
    WellNested (ops ++ ops') := by
  induction h with
  | nil => exact h'
  | declare name ty _ ih => exact .declare name ty ih
  | nest hinner _ _ ih =>
    rw [List.append_assoc]
    exact .nest hinner ih

/-- Well-nested operations end on the level they start on. -/
theorem levelFrom_eq (h : WellNested ops) (n : Nat) : levelFrom n ops = n := by
  induction h generalizing n with
  | nil => rfl
  | declare name ty _ ih => exact ih n
  | @nest inner ops _ _ ihinner ih =>
    calc levelFrom n (.push :: inner ++ .pop :: ops)
      _ = levelFrom (levelFrom (n + 1) inner - 1) ops := levelFrom_append n (.push :: inner) _
      _ = n := by rw [ihinner, Nat.add_sub_cancel, ih]

/-- No frame is closed that was open before. -/
theorem staysOpen (h : WellNested ops) (hle : frame ≤ n) : StaysOpen frame n ops := by
  induction h generalizing n with
  | nil => exact hle
  | declare name ty _ ih => exact ⟨hle, ih hle⟩
  | nest hinner _ ihinner ih =>
    have hle' : frame ≤ n + 1 := Nat.le_succ_of_le hle
    refine staysOpen_append.2 ⟨⟨hle, ihinner hle'⟩, ?_⟩
    have hlevel : levelFrom n (.push :: _) = n + 1 := hinner.levelFrom_eq (n + 1)
    rw [hlevel]
    exact ⟨hle', ih hle⟩

/-- Inside well-nested operations, the level is never below that at their start. -/
theorem le_levelFrom (h : WellNested (ops ++ after)) (n : Nat) : n ≤ levelFrom n ops :=
  (staysOpen_append.1 (h.staysOpen (Nat.le_refl n))).1.le

/-- Well-nested operations declare variables in the innermost frame only. -/
theorem outer_run (h : WellNested ops) (c : Chains) :
    (c.run ops).types.outer = c.types.outer ∧
      (c.run ops).bindings.scope.outer = c.bindings.scope.outer := by
  induction h generalizing c with
  | nil => exact ⟨rfl, rfl⟩
  | declare name ty _ ih => exact ih _
  | nest _ _ ihinner ih =>
    obtain ⟨htypes, hbindings⟩ := ihinner (c.step .push)
    rw [List.cons_append, ← List.singleton_append, Chains.run_append, Chains.run_append]
    obtain ⟨htypes', hbindings'⟩ := ih (((c.step .push).run _).step .pop)
    refine ⟨htypes'.trans ?_, hbindings'.trans ?_⟩
    · exact congrArg Scope.outer (Scope.pop_eq_of_outer htypes)
    · exact congrArg Scope.outer (Scope.pop_eq_of_outer hbindings)

/-- A well-nested segment in a frame of its own leaves both chains as they were. -/
theorem run_nested (h : WellNested inner) (c : Chains) :
    (c.run (.push :: inner ++ [.pop])).types = c.types ∧
      (c.run (.push :: inner ++ [.pop])).bindings.scope = c.bindings.scope := by
  obtain ⟨htypes, hbindings⟩ := h.outer_run (c.step .push)
  rw [Chains.run_append]
  exact ⟨Scope.pop_eq_of_outer htypes, Scope.pop_eq_of_outer hbindings⟩

end WellNested

/-- Where a frame can be closed, the history ends in what has been done since it was opened. -/
theorem exists_push_of_levelFrom {k : Nat} (h : levelFrom 0 ops = k + 1) :
    ∃ before inner, ops = before ++ .push :: inner ∧ WellNested inner ∧ levelFrom 0 before = k := by
  induction hlen : ops.length using Nat.strongRecOn generalizing ops k with
  | ind len ih =>
  rcases List.eq_nil_or_concat ops with rfl | ⟨ops, op, rfl⟩
  · cases h
  rw [List.concat_eq_append] at h hlen ⊢
  rw [List.length_append, List.length_singleton] at hlen
  rw [levelFrom_append] at h
  cases op with
  | push => exact ⟨ops, [], rfl, .nil, Nat.succ.inj h⟩
  | declare name ty =>
    obtain ⟨before, inner, rfl, hinner, hlevel⟩ := ih _ (by omega) h rfl
    exact ⟨before, inner ++ [.declare name ty], by simp,
      hinner.append (.declare name ty .nil), hlevel⟩
  | pop =>
    -- What the `pop` closes is a segment inside the next open frame.
    have hops : levelFrom 0 ops = k + 1 + 1 := by
      have h' : levelFrom 0 ops - 1 = k + 1 := h
      omega
    obtain ⟨before, inner, rfl, hinner, hlevel⟩ := ih _ (by omega) hops rfl
    rw [List.length_append] at hlen
    obtain ⟨before', inner', rfl, hinner', hlevel'⟩ := ih _ (by omega) hlevel rfl
    exact ⟨before', inner' ++ (.push :: inner ++ [.pop]), by simp,
      hinner'.append (.nest hinner .nil), hlevel'⟩

/-! ## Declarations in open frames -/

/-- A segment that closes no frame of the history, and whose own declarations of the name end up in
closed frames, does not change which declarations of the name are in open frames. -/
theorem declaresOpen_append {segment before : List ScopeOp} {ty : Ty}
    (hopen : StaysOpen (levelFrom 0 ops) (levelFrom 0 ops) segment)
    (hclosed : ∀ inner ty after, segment = inner ++ .declare name ty :: after →
      ¬ StaysOpen (levelFrom 0 (ops ++ inner)) (levelFrom 0 (ops ++ inner)) after) :
    DeclaresOpen (ops ++ segment) name before ty ↔ DeclaresOpen ops name before ty := by
  constructor
  · rintro ⟨after, heq, hafter⟩
    rcases List.append_eq_append_iff.1 heq with ⟨inner, rfl, hsegment⟩ | ⟨rest, rfl, hrest⟩
    · exact absurd hafter (hclosed inner ty after hsegment)
    · cases rest with
      | nil =>
        rw [List.append_nil] at hclosed
        exact absurd (by simpa using hafter) (hclosed [] ty after hrest.symm)
      | cons op rest =>
        obtain ⟨rfl, rfl⟩ := List.cons.inj hrest
        exact ⟨rest, rfl, (staysOpen_append.1 hafter).1⟩
  · rintro ⟨after, rfl, hafter⟩
    refine ⟨after ++ segment, by simp, staysOpen_append.2 ⟨hafter, ?_⟩⟩
    rw [levelFrom_append] at hopen
    exact hopen.mono hafter.le

/-- What a name stands for depends on its declarations in open frames only. -/
theorem Visible.congr {ops' : List ScopeOp} {ty? : Option Ty} {id? : Option BindingId}
    (h : Visible ops name ty? id?)
    (heq : ∀ before ty, DeclaresOpen ops' name before ty ↔ DeclaresOpen ops name before ty) :
    Visible ops' name ty? id? := by
  cases h with
  | declared h hlatest =>
    exact .declared ((heq _ _).2 h) fun before' ty' h' => hlatest before' ty' ((heq _ _).1 h')
  | undeclared h => exact .undeclared fun before ty h' => h before ty ((heq _ _).1 h')

/-- An operation that closes no frame and does not declare the name leaves it what it stands for. -/
theorem Visible.concat {ty? : Option Ty} {id? : Option BindingId} {op : ScopeOp}
    (h : Visible ops name ty? id?) (hlevel : levelFrom 0 ops ≤ op.level (levelFrom 0 ops))
    (hop : ∀ ty, op ≠ .declare name ty) : Visible (ops ++ [op]) name ty? id? := by
  refine h.congr fun before ty => declaresOpen_append ⟨Nat.le_refl _, hlevel⟩ ?_
  intro inner ty after heq
  have hmem : ScopeOp.declare name ty ∈ [op] := by rw [heq]; simp
  exact absurd (List.mem_singleton.1 hmem).symm (hop ty)

/-- What is declared in a segment with a frame of its own is declared inside the frame. -/
theorem exists_of_nested_eq {part : List ScopeOp} {ty : Ty}
    (h : .push :: inner ++ [.pop] = part ++ .declare name ty :: after) :
    ∃ part' after', part = .push :: part' ∧ inner = part' ++ .declare name ty :: after' := by
  cases part with
  | nil => cases h
  | cons op part =>
    obtain ⟨rfl, htail⟩ := List.cons.inj h
    rcases List.append_eq_append_iff.1 htail with ⟨rest, -, hrest⟩ | ⟨rest, hinner, hrest⟩
    · have hmem : ScopeOp.declare name ty ∈ [ScopeOp.pop] := by rw [hrest]; simp
      simp at hmem
    · cases rest with
      | nil => cases hrest
      | cons op rest =>
        obtain ⟨rfl, -⟩ := List.cons.inj hrest
        exact ⟨part, rest, rfl, hinner⟩

/-- A well-nested segment in a frame of its own leaves every name what it stands for. -/
theorem Visible.nested {ty? : Option Ty} {id? : Option BindingId} (h : Visible ops name ty? id?)
    (hinner : WellNested inner) : Visible (ops ++ (.push :: inner ++ [.pop])) name ty? id? := by
  refine h.congr fun before ty => declaresOpen_append ?_ ?_
  · exact (WellNested.nest hinner .nil).staysOpen (Nat.le_refl _)
  · -- The level falls back to that of the history, below the frame of a declaration in the segment.
    intro part ty after heq hopen
    have hbelow : levelFrom 0 (ops ++ part) ≤ levelFrom 0 ops := by
      have hend : levelFrom 0 (ops ++ (part ++ .declare name ty :: after)) = levelFrom 0 ops := by
        rw [← heq, levelFrom_append, (WellNested.nest hinner .nil).levelFrom_eq]
      rw [← List.append_assoc, levelFrom_append] at hend
      exact Nat.le_trans hopen.le (Nat.le_of_eq hend)
    obtain ⟨part, after, rfl, rfl⟩ := exists_of_nested_eq heq
    have habove := hinner.le_levelFrom (levelFrom 0 ops + 1)
    rw [levelFrom_append] at hbelow
    exact absurd (Nat.le_trans habove hbelow) (Nat.not_succ_le_self _)

/-- A declaration is the latest one of its name. -/
theorem visible_declare (ops : List ScopeOp) (name : String) (ty : Ty) :
    Visible (ops ++ [.declare name ty]) name (some ty) (some (declarations ops)) := by
  refine .declared ⟨[], rfl, Nat.le_refl _⟩ ?_
  rintro before' ty' ⟨after, heq, -⟩
  have hlen := congrArg List.length heq
  simp only [List.length_append, List.length_cons, List.length_nil] at hlen
  omega

end ScopeOp

/-- Leaving a frame leaves one frame less around, unless there is none. -/
theorem Scope.length_outer_pop {α : Type} (s : Scope α) :
    s.pop.outer.length = s.outer.length - 1 := by
  unfold pop
  split
  · next h => rw [h]; rfl
  · next h => rw [h]; rfl

/-- The outermost frame is not popped. -/
theorem Scope.pop_of_outer_nil {α : Type} {s : Scope α} (h : s.outer = []) : s.pop = s := by
  unfold pop
  rw [h]

namespace Chains

open ScopeOp

/-! ## Runs -/

/-- There is one outer frame for each level. -/
theorem length_outer_run (c : Chains) (ops : List ScopeOp) :
    (c.run ops).types.outer.length = levelFrom c.types.outer.length ops ∧
      (c.run ops).bindings.scope.outer.length = levelFrom c.bindings.scope.outer.length ops := by
  induction ops generalizing c with
  | nil => exact ⟨rfl, rfl⟩
  | cons op ops ih =>
    have htypes : (c.step op).types.outer.length = op.level c.types.outer.length := by
      cases op with
      | push | declare => rfl
      | pop => exact Scope.length_outer_pop _
    have hbindings :
        (c.step op).bindings.scope.outer.length = op.level c.bindings.scope.outer.length := by
      cases op with
      | push | declare => rfl
      | pop => exact Scope.length_outer_pop _
    have hrest := ih (c.step op)
    rwa [htypes, hbindings] at hrest

/-- On the outermost level, a `pop` does nothing. -/
theorem run_pop_of_levelFrom {ops : List ScopeOp} (h : levelFrom 0 ops = 0) :
    fresh.run (ops ++ [.pop]) = fresh.run ops := by
  obtain ⟨htypes, hbindings⟩ := length_outer_run fresh ops
  have htypes' := Scope.pop_of_outer_nil (List.eq_nil_of_length_eq_zero (htypes.trans h))
  have hbindings' := Scope.pop_of_outer_nil (List.eq_nil_of_length_eq_zero (hbindings.trans h))
  rw [run_append]
  change Chains.mk (fresh.run ops).types.pop (Bindings.mk (fresh.run ops).bindings.scope.pop _) = _
  rw [htypes', hbindings']

/-- A declaration takes a number. -/
theorem next_step_declare (c : Chains) (name : String) (ty : Ty) :
    (c.step (.declare name ty)).bindings.next = c.bindings.next + 1 := by
  simp [step, Bindings.next]

/-- Operations take as many numbers as there are declarations among them. -/
theorem next_run (c : Chains) (ops : List ScopeOp) :
    (c.run ops).bindings.next = c.bindings.next + declarations ops := by
  induction ops generalizing c with
  | nil => rfl
  | cons op ops ih =>
    refine (ih (c.step op)).trans ?_
    rw [declarations_cons]
    cases op with
    | push | pop => rfl
    | declare name ty =>
      rw [next_step_declare, Nat.add_assoc, Nat.add_comm 1]
      rfl

/-- Declarations get the numbers from the next one on, each one once. -/
theorem numbers_eq_range (c : Chains) (ops : List ScopeOp) :
    c.numbers ops = List.range' c.bindings.next (declarations ops) := by
  induction ops generalizing c with
  | nil => rfl
  | cons op ops ih =>
    rw [declarations_cons]
    cases op with
    | push | pop => exact ih _
    | declare name ty =>
      rw [numbers, ih, next_step_declare]
      rfl

/-- A look-up after any operations returns what the latest declaration in an open frame recorded. -/
theorem lookup_visible (ops : List ScopeOp) (name : String) :
    Visible ops name ((fresh.run ops).types.lookup? name)
      ((fresh.run ops).bindings.lookup? name) := by
  -- A `pop` takes the chains back to where its frame was opened, so shorter histories are needed.
  induction hlen : ops.length using Nat.strongRecOn generalizing ops with
  | ind len ih =>
  rcases List.eq_nil_or_concat ops with rfl | ⟨ops, op, rfl⟩
  · exact .undeclared fun before ty ⟨after, heq, _⟩ => by simp at heq
  rw [List.concat_eq_append] at hlen ⊢
  rw [List.length_append, List.length_singleton] at hlen
  have hops := ih _ (by omega) ops rfl
  cases op with
  | push =>
    rw [run_append]
    exact hops.concat (Nat.le_succ _) nofun
  | declare other ty =>
    have htypes : (fresh.run (ops ++ [.declare other ty])).types.lookup? name =
        if name = other then some ty else (fresh.run ops).types.lookup? name := by
      rw [run_append]
      exact Scope.lookup?_declare _ other name ty
    have hbindings : (fresh.run (ops ++ [.declare other ty])).bindings.lookup? name =
        if name = other then some (fresh.run ops).bindings.next
        else (fresh.run ops).bindings.lookup? name := by
      rw [run_append]
      exact Bindings.lookup?_declare _ other name
    rw [htypes, hbindings]
    by_cases h : name = other
    · subst h
      have hnext : (fresh.run ops).bindings.next = declarations ops :=
        (next_run fresh ops).trans (Nat.zero_add _)
      rw [if_pos rfl, if_pos rfl, hnext]
      exact visible_declare ops name ty
    · rw [if_neg h, if_neg h]
      refine hops.concat (Nat.le_refl _) ?_
      rintro ty' ⟨⟩
      exact h rfl
  | pop =>
    cases hlevel : levelFrom 0 ops with
    | zero =>
      rw [run_pop_of_levelFrom hlevel]
      exact hops.concat (by rw [hlevel]; exact Nat.le_refl 0) nofun
    | succ k =>
      obtain ⟨before, inner, rfl, hinner, -⟩ := exists_push_of_levelFrom hlevel
      rw [List.length_append] at hlen
      obtain ⟨htypes, hbindings⟩ := hinner.run_nested (fresh.run before)
      rw [List.append_assoc, run_append, htypes, Bindings.lookup?, hbindings]
      exact (ih _ (by omega) before rfl).nested hinner

/-- **Both chains of scopes implement lexical look-up, in lockstep.** After any operations the
declarations have got the numbers from zero on, a look-up in either chain returns what the latest
declaration in an open frame recorded there, so that both know the same names, and a well-nested
segment in a frame of its own changes no look-up. -/
theorem lockstep (ops : List ScopeOp) :
    let c := fresh.run ops
    fresh.numbers ops = List.range (declarations ops) ∧
    (∀ name, Visible ops name (c.types.lookup? name) (c.bindings.lookup? name)) ∧
    (∀ name, c.types.isLocal name = true ↔ ∃ id, c.bindings.lookup? name = some id) ∧
    ∀ inner, WellNested inner → ∀ name,
      let c' := fresh.run (ops ++ (.push :: inner ++ [.pop]))
      c'.types.lookup? name = c.types.lookup? name ∧
        c'.bindings.lookup? name = c.bindings.lookup? name := by
  refine ⟨?_, lookup_visible ops, fun name => ?_, fun inner hinner name => ?_⟩
  · rw [numbers_eq_range, List.range_eq_range']
    rfl
  · have hvisible := lookup_visible ops name
    rw [Scope.isLocal]
    generalize (fresh.run ops).types.lookup? name = ty? at hvisible ⊢
    generalize (fresh.run ops).bindings.lookup? name = id? at hvisible ⊢
    cases hvisible <;> simp
  · obtain ⟨htypes, hbindings⟩ := hinner.run_nested (fresh.run ops)
    dsimp only
    rw [run_append, htypes, Bindings.lookup?, hbindings]
    exact ⟨rfl, rfl⟩

/-- A declaration of `x` on the outermost level, which no `pop` closes, a frame with another `x`,
and in it one with a third. -/
def hidesTwice : List ScopeOp :=
  [.pop, .declare "x" .f64, .pop, .push, .declare "x" .bool, .declare "y" .f64, .push,
    .declare "x" .ownedText, .pop]

/-- The second `x` is visible again, and stays so while a fourth is declared and given up. -/
theorem hidesTwice_lockstep :
    let inner : List ScopeOp := [.declare "x" .f64, .push, .pop]
    fresh.numbers hidesTwice = [0, 1, 2, 3] ∧
      Visible hidesTwice "x" (some .bool) (some 1) ∧
      WellNested inner ∧
      (fresh.run (hidesTwice ++ (.push :: inner ++ [.pop]))).bindings.lookup? "x" = some 1 := by
  obtain ⟨hnumbers, hvisible, -, hnested⟩ := lockstep hidesTwice
  have hinner : WellNested [.declare "x" .f64, .push, .pop] :=
    .declare "x" .f64 (.nest .nil .nil)
  exact ⟨hnumbers, hvisible "x", hinner, (hnested _ hinner "x").2⟩

end Chains

end Oxidize
