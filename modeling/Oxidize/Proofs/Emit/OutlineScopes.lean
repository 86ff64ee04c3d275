import Mathlib.Data.List.Forall2
import Oxidize.Proofs.Emit.Outline

/-!
# The scopes of outlined lines

Read from the text of a function, a name refers to a parameter, to a line that declares a variable or to
a line with a guard. Emission has its own bindings, where a name refers to the number of a variable.
`Mirrors` says that the two scopes at a point of the text agree: they hold the same variables in the same
order, only that the text has them under their written names and that guards bind a name of their own.

Emission opens and closes its frames elsewhere than the text does its blocks: a loop has two frames for
one block, a switch has a block without a frame, and arms are not written in the order of the cases. Still
the scope of every line mirrors the bindings of the line (`Stmt.outlineList_tracks`).
-/

namespace Oxidize

open Source (Binder)

/-! ## Scopes that agree -/

/-- The declarations in scope in the text are those of emission, both given with the latest first, where
all variables have numbers below `next`. The line or the parameter that declares a variable is its
`site`. For each guard there is the number that the next variable had at the guard. -/
inductive Mirrors (site : BindingId → Binder) :
    BindingId → List BindingId → Frame Binder → Frame BindingId → Prop
  | nil {next : BindingId} : Mirrors site next [] [] []
  | var {next id : BindingId} {guards : List BindingId} {target : Frame Binder}
      {source : Frame BindingId} (name : String) : id < next → Mirrors site id guards target source →
      Mirrors site next guards ((Name.value name, site id) :: target) ((name, id) :: source)
  | guard {next g : BindingId} {guards : List BindingId} {target : Frame Binder}
      {source : Frame BindingId} (i : Nat) : g ≤ next → Mirrors site g guards target source →
      Mirrors site next (g :: guards) (("x", .guard i) :: target) source

namespace Mirrors

variable {site : BindingId → Binder} {next : BindingId} {guards : List BindingId}
  {target : Frame Binder} {source : Frame BindingId}

/-- More variables may have been given a number. -/
theorem mono (h : Mirrors site next guards target source) {next' : BindingId} (hle : next ≤ next') :
    Mirrors site next' guards target source := by
  cases h with
  | nil => exact .nil
  | var name hlt h => exact .var name (Nat.lt_of_lt_of_le hlt hle) h
  | guard i hg h => exact .guard i (Nat.le_trans hg hle) h

/-- A name refers to a variable with a number. -/
theorem lookup_lt (h : Mirrors site next guards target source) {name : String} {id : BindingId}
    (hl : source.lookup name = some id) : id < next := by
  induction h with
  | nil => cases hl
  | var key hlt _ ih =>
    rw [List.lookup_cons] at hl
    split at hl
    · cases hl
      exact hlt
    · exact Nat.lt_trans (ih hl) hlt
  | guard _ hg _ ih => exact Nat.lt_of_lt_of_le (ih hl) hg

/-- A guard comes after the variables that had a number at it. -/
theorem guard_le (h : Mirrors site next guards target source) {g : BindingId} (hg : g ∈ guards) :
    g ≤ next := by
  induction h with
  | nil => cases hg
  | var _ hlt _ ih => exact Nat.le_trans (ih hg) (Nat.le_of_lt hlt)
  | guard _ hle _ ih =>
    rcases List.mem_cons.1 hg with rfl | hg
    · exact hle
    · exact Nat.le_trans (ih hg) hle

/-- Variables in scope are told apart by their numbers. -/
theorem eq_of_lookup_eq (h : Mirrors site next guards target source) {x y : String} {id : BindingId}
    (hx : source.lookup x = some id) (hy : source.lookup y = some id) : x = y := by
  induction h with
  | nil => cases hx
  | @var _ key _ _ _ name hlt hrest ih =>
    rw [List.lookup_cons] at hx hy
    split at hx <;> split at hy
    · rename_i hxn _ hyn
      exact (eq_of_beq hxn).trans (eq_of_beq hyn).symm
    · cases hx
      exact absurd (hrest.lookup_lt hy) (Nat.lt_irrefl _)
    · cases hy
      exact absurd (hrest.lookup_lt hx) (Nat.lt_irrefl _)
    · exact ih hx hy
  | guard _ _ _ ih => exact ih hx hy

/-- The written name of a variable refers to its declaration exactly if no later variable in scope is
written alike and no guard that came later binds the name. -/
theorem lookup_iff (hsite : Function.Injective site) (hguard : ∀ id i, site id ≠ .guard i)
    (h : Mirrors site next guards target source) {name : String} {id : BindingId}
    (hl : source.lookup name = some id) :
    target.lookup (Name.value name) = some (site id) ↔
      (∀ other id', source.lookup other = some id' → Name.value other = Name.value name → id' ≤ id) ∧
        (Name.value name = "x" → ∀ g ∈ guards, g ≤ id) := by
  induction h with
  | nil => cases hl
  | @var next key guards target source declared hlt hrest ih =>
    by_cases hname : name = declared
    · -- The variable is the latest of all.
      subst hname
      rw [List.lookup_cons_self] at hl ⊢
      cases hl
      refine iff_of_true rfl ⟨fun other id' hother _ => ?_, fun _ g hg => hrest.guard_le hg⟩
      rw [List.lookup_cons] at hother
      split at hother
      · cases hother
        exact Nat.le_refl _
      · exact Nat.le_of_lt (hrest.lookup_lt hother)
    · have hother : source.lookup name = some id := by
        rwa [List.lookup_cons, beq_false_of_ne hname] at hl
      by_cases hvalue : Name.value declared = Name.value name
      · -- The latest variable is another one that is written alike.
        rw [hvalue, List.lookup_cons_self]
        have hnew : id < key := hrest.lookup_lt hother
        refine iff_of_false (fun heq => ?_) fun ⟨hlatest, _⟩ => ?_
        · exact Nat.ne_of_gt hnew (hsite (Option.some.inj heq))
        · exact Nat.not_le_of_lt hnew (hlatest declared key List.lookup_cons_self hvalue)
      · -- The latest variable has nothing to do with the name.
        rw [List.lookup_cons, beq_false_of_ne (Ne.symm hvalue), ih hother]
        refine and_congr_left' (forall₂_congr fun x id' => ?_)
        by_cases hx : x = declared
        · subst hx
          exact iff_of_true (fun _ hxv => absurd hxv hvalue) fun _ hxv => absurd hxv hvalue
        · rw [List.lookup_cons, beq_false_of_ne hx]
  | @guard next g guards target source i hg hrest ih =>
    by_cases hx : Name.value name = "x"
    · rw [hx, List.lookup_cons_self]
      refine iff_of_false (fun heq => hguard id i (Option.some.inj heq).symm) fun ⟨_, hall⟩ => ?_
      exact Nat.not_le_of_lt (hrest.lookup_lt hl) (hall rfl g (.head _))
    · rw [List.lookup_cons, beq_false_of_ne hx, ih hl]
      exact and_congr_right' (iff_of_true (fun h => absurd h hx) fun h => absurd h hx)

/-- Written names refer to the declarations of their own variables exactly if no two variables in scope
are written alike and no guard that came later than a variable binds its written name. -/
theorem faithful_iff (hsite : Function.Injective site) (hguard : ∀ id i, site id ≠ .guard i)
    (h : Mirrors site next guards target source) :
    (∀ name id, source.lookup name = some id → target.lookup (Name.value name) = some (site id)) ↔
      (∀ x y, (source.lookup x).isSome → (source.lookup y).isSome → Name.value x = Name.value y →
        x = y) ∧
      ∀ name id, source.lookup name = some id → Name.value name = "x" → ∀ g ∈ guards, g ≤ id := by
  constructor
  · intro hall
    refine ⟨fun x y hx hy hxy => ?_, fun name id hl => ((h.lookup_iff hsite hguard hl).1 (hall _ _ hl)).2⟩
    obtain ⟨i, hi⟩ := Option.isSome_iff_exists.1 hx
    obtain ⟨j, hj⟩ := Option.isSome_iff_exists.1 hy
    have hij : some (site i) = some (site j) := by
      rw [← hall x i hi, ← hall y j hj, hxy]
    cases hsite (Option.some.inj hij)
    exact h.eq_of_lookup_eq hi hj
  · rintro ⟨hinj, hguards⟩ name id hl
    refine (h.lookup_iff hsite hguard hl).2 ⟨fun other id' hother hvalue => ?_, hguards name id hl⟩
    have hsame : other = name := hinj other name (Option.isSome_iff_exists.2 ⟨id', hother⟩)
      (Option.isSome_iff_exists.2 ⟨id, hl⟩) hvalue
    subst hsame
    cases hother.symm.trans hl
    exact Nat.le_refl _

end Mirrors

/-! ## Along lines -/

section
variable (site : BindingId → Binder)

/-- The scope in the text mirrors the bindings. -/
def Mirrored (guards : List BindingId) (b : Bindings) (target : Scope Binder) : Prop :=
  Mirrors site b.next guards target.entries b.scope.entries

/-- The scope of a line mirrors the bindings of the line. -/
def LineNote.MirroredIn (n : LineNote) (target : Scope Binder) : Prop :=
  Mirrored site n.guards n.bindings target

/-- Each variable that lines declare has its line as its site, the first line having the given number. -/
def Sites (k : Nat) (notes : List LineNote) : Prop :=
  ∀ i n v, notes[i]? = some n → n.role.declares? = some v → site v.2 = .line (k + i)

/-- Read from the given scope on, every line has a scope that mirrors its bindings. After the lines there
is the scope at the end. -/
inductive LineWalk : Scope Binder → Nat → List LineNote → Scope Binder → Prop
  | nil {s : Scope Binder} {k : Nat} : LineWalk s k [] s
  | cons {s s' : Scope Binder} {k : Nat} {n : LineNote} {notes : List LineNote} :
      n.MirroredIn site (n.role.kind.scopeWithin k s) →
      LineWalk (n.role.kind.scopeAfter k s) (k + 1) notes s' → LineWalk s k (n :: notes) s'

end

section
variable {site : BindingId → Binder} {guards : List BindingId} {b : Bindings}
  {target : Scope Binder} {k : Nat} {notes notes' : List LineNote} {n : LineNote}

/-- A guard binds a name in the text only. -/
theorem Mirrored.guard (h : Mirrored site guards b target) (k : Nat) :
    Mirrored site (b.next :: guards) b (target.push.declare "x" (.guard k)) :=
  Mirrors.guard k (Nat.le_refl _) h

/-- A variable is declared in both. -/
theorem Mirrored.declare (h : Mirrored site guards b target) {name : String} {binder : Binder}
    (hsite : site b.next = binder) :
    Mirrored site guards (b.declare name) (target.declare (Name.value name) binder) := by
  rw [← hsite]
  refine .var name ?_ h
  rw [Bindings.next_declare]
  exact Nat.lt_succ_self _

/-- Variables that have gone out of scope count only for the numbers. -/
theorem Mirrored.of_scope (h : Mirrored site guards b target) {b' : Bindings}
    (hscope : b'.scope = b.scope) (hnext : b.next ≤ b'.next) : Mirrored site guards b' target := by
  rw [Mirrored, hscope]
  exact h.mono hnext

namespace Sites

/-- The variable of the first line. -/
theorem head (h : Sites site k (n :: notes)) {v : String × BindingId}
    (hv : n.role.declares? = some v) : site v.2 = .line k :=
  h 0 n v rfl hv

/-- The variables of the lines after the first one. -/
theorem tail (h : Sites site k (n :: notes)) : Sites site (k + 1) notes := by
  intro i m v hm hv
  rw [h (i + 1) m v hm hv, Nat.add_assoc, Nat.add_comm 1]

/-- The variables of the text after a line. -/
theorem tell {out : Traced LineNote Bindings} (h : Sites site k (Traced.tell n >>= fun _ => out).trace) :
    Sites site (k + 1) out.trace :=
  tail h

/-- The variables of the lines before others. -/
theorem left (h : Sites site k (notes ++ notes')) : Sites site k notes := by
  intro i m v hm hv
  refine h i m v ?_ hv
  rwa [List.getElem?_append_left (List.getElem?_eq_some_iff.1 hm).1]

/-- The variables of the lines after others. -/
theorem right (h : Sites site k (notes ++ notes')) : Sites site (k + notes.length) notes' := by
  intro i m v hm hv
  rw [h (notes.length + i) m v ?_ hv, Nat.add_assoc]
  rwa [List.getElem?_append_right (Nat.le_add_right _ _), Nat.add_sub_cancel_left]

end Sites

namespace LineWalk

variable {s s' s'' : Scope Binder}

/-- Lines after lines. -/
theorem append (h : LineWalk site s k notes s') (h' : LineWalk site s' (k + notes.length) notes' s'') :
    LineWalk site s k (notes ++ notes') s'' := by
  induction h with
  | nil => exact h'
  | cons hn _ ih =>
    refine .cons hn (ih ?_)
    rwa [List.length_cons, Nat.add_comm _ 1, ← Nat.add_assoc] at h'

/-- A line that closes a block, after the lines of the block. -/
theorem close (h : LineWalk site s k notes s') (hpop : s'.pop = target)
    (hmirror : Mirrored site guards b target) :
    LineWalk site s k (notes ++ [⟨.closes, b, guards, []⟩]) target := by
  subst hpop
  exact h.append (.cons hmirror .nil)

/-- The scope of each line, read from the lines, mirrors its bindings. -/
theorem forall₂ (h : LineWalk site s k notes s') :
    List.Forall₂ (LineNote.MirroredIn site) notes
      (Source.scopesFrom s k (notes.map (·.role.kind))) := by
  induction h with
  | nil => exact .nil
  | cons hn _ ih => exact .cons hn ih

end LineWalk

end

/-! ## Outlined texts -/

/-- From a scope that mirrors the bindings before the outlined text, every line of the text has a scope
that mirrors its bindings, and so has the end. Variables are declared in the innermost frame. -/
structure Tracks (site : BindingId → Binder) (guards : List BindingId) (b : Bindings)
    (out : Traced LineNote Bindings) : Prop where
  outer : out.value.scope.outer = b.scope.outer
  next_le : b.next ≤ out.value.next
  walks : ∀ target k, Mirrored site guards b target → Sites site k out.trace →
    ∃ target', LineWalk site target k out.trace target' ∧ Mirrored site guards out.value target' ∧
      target'.outer = target.outer

/-- The outlined text is the inside of a block: what it declares goes out of scope after it. -/
structure TracksBlock (site : BindingId → Binder) (guards : List BindingId) (b : Bindings)
    (out : Traced LineNote Bindings) : Prop where
  scope : out.value.scope = b.scope
  next_le : b.next ≤ out.value.next
  walks : ∀ target k, Mirrored site guards b target → Sites site k out.trace →
    ∃ target', LineWalk site target k out.trace target' ∧ target'.outer = target.outer

/-- The outlined text follows the inside of a block. It may go on with further blocks, and ends inside
one. -/
structure TracksElse (site : BindingId → Binder) (guards : List BindingId) (b : Bindings)
    (out : Traced LineNote Bindings) : Prop where
  scope : out.value.scope = b.scope
  next_le : b.next ≤ out.value.next
  walks : ∀ start k, Mirrored site guards b start.pop → Sites site k out.trace →
    ∃ target', LineWalk site start k out.trace target' ∧ target'.pop = start.pop

/-- The lines of each arm lead back to the scope at the start of the arms. -/
structure TracksArms (site : BindingId → Binder) (guards : List BindingId) (b : Bindings)
    (arms : Traced (Bool × List LineNote) Bindings) : Prop where
  scope : arms.value.scope = b.scope
  next_le : b.next ≤ arms.value.next
  walks : ∀ target, Mirrored site guards b target → ∀ arm ∈ arms.trace, ∀ k, Sites site k arm.2 →
    LineWalk site target k arm.2 target

section
variable {site : BindingId → Binder} {guards : List BindingId} {b : Bindings}
  {out : Traced LineNote Bindings} {f : Bindings → Traced LineNote Bindings}

namespace Tracks

/-- Nothing is written. -/
theorem pure (b : Bindings) : Tracks site guards b (Pure.pure b) :=
  ⟨rfl, Nat.le_refl _, fun target _ h _ => ⟨target, .nil, h, rfl⟩⟩

/-- One text after the other. -/
theorem bind (hout : Tracks site guards b out) (hf : Tracks site guards out.value (f out.value)) :
    Tracks site guards b (out >>= f) := by
  refine ⟨hf.outer.trans hout.outer, Nat.le_trans hout.next_le hf.next_le, fun target k h hsites => ?_⟩
  obtain ⟨target₁, hwalks, h₁, houter⟩ := hout.walks target k h hsites.left
  obtain ⟨target₂, hwalks', h₂, houter'⟩ := hf.walks target₁ _ h₁ hsites.right
  exact ⟨target₂, hwalks.append hwalks', h₂, houter'.trans houter⟩

/-- A line without a declaration. -/
theorem plain (b : Bindings) (shown : List Expr) :
    Tracks site guards b (Traced.tell ⟨.plain, b, guards, shown⟩ >>= fun _ => Pure.pure b) :=
  ⟨rfl, Nat.le_refl _, fun target _ h _ => ⟨target, .cons h .nil, h, rfl⟩⟩

/-- A line that declares a variable. -/
theorem letVar (b : Bindings) (name : String) (shown : List Expr) :
    Tracks site guards b
      (Traced.tell ⟨.letVar name b.next, b, guards, shown⟩ >>= fun _ => Pure.pure (b.declare name)) := by
  refine ⟨rfl, ?_, fun target k h hsites => ?_⟩
  · rw [Traced.value_bind, Traced.value_pure, Bindings.next_declare]
    exact Nat.le_succ _
  · exact ⟨target.declare (Name.value name) (.line k), .cons h .nil, h.declare (hsites.head rfl), rfl⟩

/-- The inside of a block, between the line that opens the block and the line that closes the last
one. -/
theorem enclosed (shown : List Expr) (hout : TracksBlock site guards b out)
    (hf : TracksElse site guards out.value (f out.value)) :
    Tracks site guards b (do
      Traced.tell ⟨.opens, b, guards, shown⟩
      let b ← out
      let b ← f b
      Traced.tell ⟨.closes, b, guards, []⟩
      return b) := by
  have hscope : (f out.value).value.scope = b.scope := hf.scope.trans hout.scope
  have hnext : b.next ≤ (f out.value).value.next := Nat.le_trans hout.next_le hf.next_le
  refine ⟨congrArg Scope.outer hscope, hnext, fun target k h hsites => ?_⟩
  obtain ⟨target₁, hwalks, houter⟩ := hout.walks target.push (k + 1) h hsites.tell.left
  have hpop : target₁.pop = target := Scope.pop_eq_of_outer houter
  have h₁ : Mirrored site guards out.value target₁.pop := by
    rw [hpop]
    exact h.of_scope hout.scope hout.next_le
  obtain ⟨target₂, hwalks', hpop'⟩ := hf.walks target₁ _ h₁ hsites.tell.right.left
  have hend : Mirrored site guards (f out.value).value target := h.of_scope hscope hnext
  refine ⟨target, .cons h ?_, hend, rfl⟩
  have hall := (hwalks.append hwalks').close (hpop'.trans hpop) hend
  rwa [List.append_assoc] at hall

/-- The inside of a loop, after the line that declares the variable of the loop. -/
theorem loop {name : String} (shown : List Expr)
    (hout : TracksBlock site guards (b.push.declare name) out) :
    Tracks site guards b (do
      Traced.tell ⟨.loop name b.next, b, guards, shown⟩
      let b ← out
      Traced.tell ⟨.closes, b.pop, guards, []⟩
      return b.pop) := by
  have hscope : out.value.pop.scope = b.scope := by
    rw [Bindings.scope_pop, hout.scope]
    rfl
  have hnext : b.next ≤ out.value.next := by
    refine Nat.le_trans ?_ hout.next_le
    rw [Bindings.next_declare]
    exact Nat.le_succ _
  refine ⟨congrArg Scope.outer hscope, hnext, fun target k h hsites => ?_⟩
  have hvar : Mirrored site guards (b.push.declare name)
      (target.push.declare (Name.value name) (.line k)) := by
    have hpush : Mirrored site guards b.push target.push := h
    exact hpush.declare (hsites.head rfl)
  obtain ⟨target₁, hwalks, houter⟩ := hout.walks _ (k + 1) hvar hsites.tell.left
  have hend : Mirrored site guards out.value.pop target := h.of_scope hscope hnext
  exact ⟨target, .cons h (hwalks.close (Scope.pop_eq_of_outer houter) hend), hend, rfl⟩

/-- Leaving the frame of the text, as the inside of a block. -/
theorem block (hout : Tracks site guards b.push out) :
    TracksBlock site guards b (out >>= fun b' => Pure.pure b'.pop) := by
  refine ⟨Scope.pop_eq_of_outer hout.outer, hout.next_le, fun target k h hsites => ?_⟩
  obtain ⟨target', hwalks, -, houter⟩ := hout.walks target k h hsites.left
  exact ⟨target', hwalks.append .nil, houter⟩

end Tracks

namespace TracksElse

/-- No further block. -/
theorem pure (b : Bindings) : TracksElse site guards b (Pure.pure b) :=
  ⟨rfl, Nat.le_refl _, fun start _ _ _ => ⟨start, .nil, rfl⟩⟩

/-- A further block. -/
theorem reopened (shown : List Expr) (hout : TracksBlock site guards b out)
    (hf : TracksElse site guards out.value (f out.value)) :
    TracksElse site guards b (Traced.tell ⟨.reopens, b, guards, shown⟩ >>= fun _ => out >>= f) := by
  refine ⟨hf.scope.trans hout.scope, Nat.le_trans hout.next_le hf.next_le,
    fun start k h hsites => ?_⟩
  obtain ⟨target₁, hwalks, houter⟩ := hout.walks start.pop.push (k + 1) h hsites.tell.left
  have hpop : target₁.pop = start.pop := Scope.pop_eq_of_outer houter
  have h₁ : Mirrored site guards out.value target₁.pop := by
    rw [hpop]
    exact h.of_scope hout.scope hout.next_le
  obtain ⟨target₂, hwalks', hpop'⟩ := hf.walks target₁ _ h₁ hsites.tell.right
  exact ⟨target₂, .cons h (hwalks.append hwalks'), hpop'.trans hpop⟩

/-- The last block. -/
theorem last (hout : Tracks site guards b.push out) :
    TracksElse site guards b (do
      Traced.tell ⟨.reopens, b, guards, []⟩
      let b' ← out
      return b'.pop) := by
  have h := reopened [] hout.block (f := Pure.pure) (.pure _)
  simpa only [Traced.bind_assoc, Traced.pure_bind] using h

end TracksElse

/-! ## Arms -/

/-- The lines of arms one after the other lead back to the scope at the start. -/
theorem walks_flatMap {target : Scope Binder} {arms : List (Bool × List LineNote)}
    (h : ∀ arm ∈ arms, ∀ k, Sites site k arm.2 → LineWalk site target k arm.2 target) {k : Nat}
    (hsites : Sites site k (arms.flatMap (·.2))) :
    LineWalk site target k (arms.flatMap (·.2)) target := by
  induction arms generalizing k with
  | nil => exact .nil
  | cons arm arms ih =>
    refine (h arm (.head _) k hsites.left).append ?_
    exact ih (fun arm' harm => h arm' (.tail _ harm)) hsites.right

/-- Arms may be written in another order than that of the cases. -/
theorem TracksArms.block {arms : Traced (Bool × List LineNote) Bindings}
    (h : TracksArms site guards b arms) : TracksBlock site guards b (orderArms guards arms) := by
  refine ⟨h.scope, h.next_le, fun target k hmirror hsites => ⟨target, ?_, rfl⟩⟩
  have harms := h.walks target hmirror
  refine (walks_flatMap (fun arm harm => harms arm (List.mem_filter.1 harm).1) hsites.left).append ?_
  refine (walks_flatMap (fun arm harm => harms arm (List.mem_filter.1 harm).1)
    hsites.right.left).append ?_
  split
  · exact .nil
  · exact .cons (hmirror.of_scope h.scope h.next_le) .nil

/-- The lines of the body of an arm, with the line that closes the arm, lead out of the block of the
arm. -/
theorem Tracks.walks_body {inside : List BindingId} (hout : Tracks site inside b.push out)
    {target : Scope Binder} (inner : Scope Binder) (h : Mirrored site guards b target)
    (hinner : Mirrored site inside b inner) (houter : inner.outer = target.push.outer) {k : Nat}
    (hsites : Sites site k (out.trace ++ [⟨.closes, out.value.pop, guards, []⟩])) :
    LineWalk site inner k (out.trace ++ [⟨.closes, out.value.pop, guards, []⟩]) target := by
  obtain ⟨target', hwalks, -, houter'⟩ := hout.walks inner k hinner hsites.left
  refine hwalks.close (Scope.pop_eq_of_outer (houter'.trans houter)) (h.of_scope ?_ hout.next_le)
  exact Scope.pop_eq_of_outer hout.outer

/-- The lines of an arm lead back to the scope at its start. -/
theorem SwitchCase.armNotes_walks {c : SwitchCase}
    (hbody : Tracks site (c.guardsOver guards b) b.push out) {target : Scope Binder}
    (h : Mirrored site guards b target) {k : Nat} (hsites : Sites site k (c.armNotes guards b out)) :
    LineWalk site target k (c.armNotes guards b out) target := by
  unfold armNotes patternNote guardsOver at hsites ⊢
  unfold guardsOver at hbody
  cases hcompared : c.value.any Expr.isCompared with
  | false =>
    simp only [hcompared, Bool.false_eq_true, if_false] at hbody hsites ⊢
    cases hempty : isEmptyCase c.body with
    | false =>
      simp only [hempty, Bool.false_eq_true, if_false] at hsites ⊢
      exact .cons h (hbody.walks_body target.push h h rfl hsites.tail)
    | true => exact .cons h .nil
  | true =>
    simp only [hcompared, if_true] at hbody hsites ⊢
    cases hempty : isEmptyCase c.body with
    | false =>
      simp only [hempty, Bool.false_eq_true, if_false] at hsites ⊢
      exact .cons (h.guard k) (hbody.walks_body _ h (h.guard k) rfl hsites.tail)
    | true => exact .cons (h.guard k) .nil

end

mutual

/-- The lines of a statement have scopes that mirror their bindings. -/
theorem Stmt.outline_tracks (site : BindingId → Binder) (guards : List BindingId) :
    (s : Stmt) → (b : Bindings) → Tracks site guards b (s.outline guards b)
  | .letVar _ name _ _ init, b => by
    rw [Stmt.outline]
    exact .letVar b name init.toList
  | .assign .., b | .ret .., b | .breakLoop _, b | .continueLoop _, b | .expr _, b => by
    rw [Stmt.outline]
    exact .plain b _
  | .ifElse _ cond thenBlock elseBlock, b => by
    rw [Stmt.outline]
    exact .enclosed [cond] (thenBlock.outline_tracksBlock site guards b)
      (Block.outlineElse_tracksElse site guards elseBlock _)
  | .whileLoop _ cond body, b => by
    rw [Stmt.outline]
    exact .enclosed [cond] (body.outline_tracksBlock site guards b) (.pure _)
  | .forEach _ var iterable body, b => by
    rw [Stmt.outline]
    exact .loop [iterable] (body.outline_tracksBlock site guards _)
  | .switch _ scrutinee cases, b => by
    rw [Stmt.outline]
    exact .enclosed [scrutinee] (SwitchCase.outlines_tracks site guards cases b).block (.pure _)
  | .block body, b => by
    rw [Stmt.outline]
    exact .enclosed [] (body.outline_tracksBlock site guards b) (.pure _)

/-- The lines of statements have scopes that mirror their bindings. -/
theorem Stmt.outlineList_tracks (site : BindingId → Binder) (guards : List BindingId) :
    (ss : List Stmt) → (b : Bindings) → Tracks site guards b (Stmt.outlineList guards b ss)
  | [], b => by
    rw [Stmt.outlineList]
    exact .pure b
  | s :: ss, b => by
    rw [Stmt.outlineList]
    exact (s.outline_tracks site guards b).bind (Stmt.outlineList_tracks site guards ss _)

/-- The lines inside a block have scopes that mirror their bindings. -/
theorem Block.outline_tracksBlock (site : BindingId → Binder) (guards : List BindingId) :
    (body : Block) → (b : Bindings) → TracksBlock site guards b (body.outline guards b)
  | ⟨_, stmts⟩, b => by
    rw [Block.outline]
    exact (Stmt.outlineList_tracks site guards stmts b.push).block

/-- The lines of alternatives have scopes that mirror their bindings. -/
theorem Block.outlineElse_tracksElse (site : BindingId → Binder) (guards : List BindingId) :
    (body : Option Block) → (b : Bindings) →
      TracksElse site guards b (Block.outlineElse guards b body)
  | none, b => by
    rw [Block.outlineElse]
    exact .pure b
  | some ⟨span, [s]⟩, b => by
    cases s with
    | ifElse _ cond thenBlock elseBlock =>
      rw [Block.outlineElse]
      exact .reopened [cond] (thenBlock.outline_tracksBlock site guards b)
        (Block.outlineElse_tracksElse site guards elseBlock _)
    | _ =>
      exact .last (Stmt.outlineList_tracks site guards _ b.push)
  | some ⟨span, []⟩, b =>
    .last (Stmt.outlineList_tracks site guards [] b.push)
  | some ⟨span, s :: s' :: ss⟩, b => by
    rw [Block.outlineElse]
    · exact .last (Stmt.outlineList_tracks site guards (s :: s' :: ss) b.push)
    · nofun

/-- The lines of arms have scopes that mirror their bindings. -/
theorem SwitchCase.outlines_tracks (site : BindingId → Binder) (guards : List BindingId) :
    (cases : List SwitchCase) → (b : Bindings) →
      TracksArms site guards b (SwitchCase.outlines guards b cases)
  | [], b => by
    rw [SwitchCase.outlines]
    exact ⟨rfl, Nat.le_refl _, nofun⟩
  | ⟨span, value, body, fallthrough⟩ :: cases, b => by
    rw [SwitchCase.outlines]
    have hbody := Stmt.caseOutline_tracks site
      (SwitchCase.guardsOver guards b ⟨span, value, body, fallthrough⟩) body b.push
    have hscope := Scope.pop_eq_of_outer hbody.outer
    have hrest := SwitchCase.outlines_tracks site guards cases
      (Stmt.caseOutline (SwitchCase.guardsOver guards b ⟨span, value, body, fallthrough⟩)
        b.push body).value.pop
    refine ⟨hrest.scope.trans hscope, Nat.le_trans hbody.next_le hrest.next_le,
      fun target h arm harm k hsites => ?_⟩
    rcases List.mem_cons.1 harm with rfl | harm
    · exact SwitchCase.armNotes_walks hbody h hsites
    · exact hrest.walks target (h.of_scope hscope hbody.next_le) arm harm k hsites

/-- The lines of the body of a case have scopes that mirror their bindings. -/
theorem Stmt.caseOutline_tracks (site : BindingId → Binder) (guards : List BindingId) :
    (ss : List Stmt) → (b : Bindings) → Tracks site guards b (Stmt.caseOutline guards b ss)
  | [], b => by
    rw [Stmt.caseOutline]
    exact .pure b
  | [s], b => by
    cases s with
    | breakLoop span => exact .pure b
    | _ => exact .bind (Stmt.outline_tracks site guards _ b) (.pure _)
  | s :: s' :: ss, b => by
    rw [Stmt.caseOutline]
    · exact (s.outline_tracks site guards b).bind (Stmt.caseOutline_tracks site guards (s' :: ss) _)
    · nofun

end

end Oxidize
