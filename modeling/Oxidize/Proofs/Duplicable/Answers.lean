import Oxidize.Proofs.Duplicable.Expansion

/-!
# Which checks of a type end

A check expands the aliases of a type at every layer it descends. Each expansion ends, even on an
alias that contains itself, but that does not make the descent end. The checks descend into tuples
and optionals only. So an alias may contain itself in a sequence, in a function type or behind a
reference, and may be just another name for itself: as long as no alias is a part of itself
(`Registry.Grounded`), every check is answered within `Registry.expansionBound` layers. An alias
whose parts lead back to it is never answered (`CopySet.admitsWithin_eq_none`): after any number of
layers the check has come to the alias again.

Between the two there are aliases that are part of themselves although no check gets so far, since an
item before is refused. In general a check is answered exactly if what it asks next, and what that asks,
comes to an end (`CopySet.answered_iff_acc`).
-/

namespace Oxidize

/-! ## Parts -/

namespace Ty

/-- The name that the type consists of. -/
def name? : Ty → Option String
  | .aggregate name | .enum name => some name
  | _ => none

mutual

/-- The names that a type has for parts, by themselves or in tuples and optionals. -/
def partNames : Ty → List String
  | .aggregate name | .enum name => [name]
  | .tuple elems => partNamesList elems
  | .optional inner => inner.partNames
  | .prim _ | .seq _ | .ref _ _ | .fn _ _ => []

/-- The names that types have for parts. -/
def partNamesList : List Ty → List String
  | [] => []
  | t :: ts => t.partNames ++ partNamesList ts

end

/-- A type that consists of a name is an aggregate or an enum. -/
theorem eq_of_name? {t : Ty} {name : String} (h : t.name? = some name) :
    t = .aggregate name ∨ t = .enum name := by
  cases t <;> simp_all [name?]

end Ty

namespace Registry

/-- A name is an alias that `d` declares, or another name for such an alias, and `d` does not just
give another name. -/
inductive StandsFor (r : Registry) : String → AliasDecl → Prop where
  | last {name : String} {d : AliasDecl} (h : r.aliasDecl? name = some d)
      (hd : d.target.name? = none) : StandsFor r name d
  | next {name other : String} {d e : AliasDecl} (h : r.aliasDecl? name = some e)
      (he : e.target.name? = some other) (hd : StandsFor r other d) : StandsFor r name d

/-- The name `b` is a part of what the name `a` stands for. -/
def PartStep (r : Registry) (a b : String) : Prop :=
  ∃ d, r.StandsFor a d ∧ b ∈ d.target.partNames

/-- No alias is a part of itself, not through other aliases either. -/
def Grounded (r : Registry) : Prop :=
  ∀ name, ¬ Relation.TransGen r.PartStep name name

end Registry

/-! ## Depth of the parts -/

/-- The parts of the type, with the aliases among them expanded, lie at most that many tuples and
optionals deep. -/
inductive Ty.SettlesWithin (r : Registry) : Nat → Ty → Prop where
  | prim {n : Nat} (p : Prim) : SettlesWithin r n (.prim p)
  | seq {n : Nat} (elem : Ty) : SettlesWithin r n (.seq elem)
  | ref {n : Nat} (inner : Ty) (mutable : Bool) : SettlesWithin r n (.ref inner mutable)
  | fn {n : Nat} (params : List Ty) (ret : Ty) : SettlesWithin r n (.fn params ret)
  | aggregate {n : Nat} {name : String}
      (h : ∀ d, r.StandsFor name d → SettlesWithin r n d.target) :
    SettlesWithin r n (.aggregate name)
  | enum {n : Nat} {name : String} (h : ∀ d, r.StandsFor name d → SettlesWithin r n d.target) :
    SettlesWithin r n (.enum name)
  | tuple {n : Nat} {elems : List Ty} (h : ∀ e ∈ elems, SettlesWithin r n e) :
    SettlesWithin r (n + 1) (.tuple elems)
  | optional {n : Nat} {inner : Ty} (h : SettlesWithin r n inner) :
    SettlesWithin r (n + 1) (.optional inner)

namespace Ty

variable {r : Registry}

/-- What settles within some layers settles within more. -/
theorem SettlesWithin.mono {n m : Nat} {t : Ty} (h : SettlesWithin r n t) (hle : n ≤ m) :
    SettlesWithin r m t := by
  induction h generalizing m with
  | prim p => exact .prim p
  | seq elem => exact .seq elem
  | ref inner mutable => exact .ref inner mutable
  | fn params ret => exact .fn params ret
  | aggregate _ ih => exact .aggregate fun d hd => ih d hd hle
  | enum _ ih => exact .enum fun d hd => ih d hd hle
  | tuple _ ih =>
    obtain ⟨m, rfl⟩ := Nat.exists_eq_add_of_le' hle
    exact .tuple fun e he => ih e he (Nat.le_add_left _ _)
  | optional _ ih =>
    obtain ⟨m, rfl⟩ := Nat.exists_eq_add_of_le' hle
    exact .optional (ih (Nat.le_add_left _ _))

mutual

/-- The parts of a type lie as deep as the type is and as the parts of the aliases in it lie. -/
theorem settlesWithin_depth {k : Nat} : (t : Ty) →
    (∀ name ∈ t.partNames, ∀ d, r.StandsFor name d → SettlesWithin r k d.target) →
    SettlesWithin r (t.depth + k) t
  | .prim p, _ => .prim p
  | .seq elem, _ => .seq elem
  | .ref inner mutable, _ => .ref inner mutable
  | .fn params ret, _ => .fn params ret
  | .aggregate name, h => by
    rw [depth, Nat.zero_add]
    exact .aggregate (h name (.head _))
  | .enum name, h => by
    rw [depth, Nat.zero_add]
    exact .enum (h name (.head _))
  | .tuple elems, h => by
    rw [depth, Nat.add_right_comm]
    exact .tuple (settlesWithin_depthList elems h)
  | .optional inner, h => by
    rw [depth, Nat.add_right_comm]
    exact .optional (settlesWithin_depth inner h)

/-- Types settle within their depth and what the aliases among their parts need. -/
theorem settlesWithin_depthList {k : Nat} : (ts : List Ty) →
    (∀ name ∈ partNamesList ts, ∀ d, r.StandsFor name d → SettlesWithin r k d.target) →
    ∀ t ∈ ts, SettlesWithin r (depthList ts + k) t
  | [], _ => nofun
  | t :: ts, h => by
    rw [depthList, List.forall_mem_cons]
    refine ⟨?_, fun u hu => ?_⟩
    · exact (settlesWithin_depth t fun name hn => h name (List.mem_append_left _ hn)).mono (by omega)
    · exact (settlesWithin_depthList ts (fun name hn => h name (List.mem_append_right _ hn)) u
        hu).mono (by omega)

end

/-- An alias has parts as deep as its target has, which may be another name. -/
theorem settlesWithin_target {n : Nat} {name : String} {target : Ty}
    (h : ∀ d, r.StandsFor name d → SettlesWithin r n d.target) (ha : r.alias? name = some target) :
    SettlesWithin r n target := by
  obtain ⟨d, _, hd, _, rfl⟩ := Registry.aliasDecl?_of_alias? ha
  cases hname : d.target.name? with
  | none => exact h d (.last hd hname)
  | some other =>
    have hother : ∀ e, r.StandsFor other e → SettlesWithin r n e.target :=
      fun e he => h e (.next hd hname he)
    rcases eq_of_name? hname with heq | heq
    · rw [heq]
      exact .aggregate hother
    · rw [heq]
      exact .enum hother

end Ty

namespace Registry

variable {r : Registry}

/-- What a name stands for is declared. -/
theorem StandsFor.mem_aliases {name : String} {d : AliasDecl} (h : r.StandsFor name d) :
    d ∈ r.aliases := by
  induction h with
  | last h _ => exact List.mem_reverse.1 (List.mem_of_find?_eq_some h)
  | next _ _ _ ih => exact ih

open Relation in
/-- The parts of what a name stands for lie as deep as the targets of the declarations that can be
met below the name, its own included, are together. -/
theorem Grounded.target_settlesWithin (hr : r.Grounded) (met : List AliasDecl) {name : String}
    {d : AliasDecl} (hd : r.StandsFor name d)
    (hmet : ∀ other e, ReflTransGen r.PartStep name other → r.StandsFor other e → e ∈ met) :
    d.target.SettlesWithin r (totalDepth met) := by
  -- Below the target no part stands for the same declaration, so one fewer remains.
  induction hn : met.length generalizing met name d with
  | zero =>
    have hmem := hmet name d .refl hd
    rw [List.eq_nil_of_length_eq_zero hn] at hmem
    exact nomatch hmem
  | succ n ih =>
    have hmem : d ∈ met := hmet name d .refl hd
    rw [totalDepth_erase hmem]
    refine Ty.settlesWithin_depth d.target fun part hpart e he => ?_
    have hstep : r.PartStep name part := ⟨d, hd, hpart⟩
    refine ih (met.erase d) he (fun other e' hother he' => ?_) ?_
    · have hne : e' ≠ d := by
        rintro rfl
        exact hr part (.tail' hother ⟨e', he', hpart⟩)
      exact (List.mem_erase_of_ne hne).2 (hmet other e' (.head hstep hother) he')
    · rw [List.length_erase_of_mem hmem, hn, Nat.add_sub_cancel]

/-- If no alias is a part of itself, a type settles within its own depth and that of all aliases. -/
theorem Grounded.settlesWithin (hr : r.Grounded) (t : Ty) :
    t.SettlesWithin r (t.depth + totalDepth r.aliases) :=
  Ty.settlesWithin_depth t fun _ _ _ hd =>
    hr.target_settlesWithin r.aliases hd fun _ _ _ he => he.mem_aliases

/-- Expanding the first layers of aliases takes no part deeper. -/
theorem normalizeWithin_settlesWithin {k : Nat} (n : Nat) {t : Ty} (h : t.SettlesWithin r k) :
    (r.normalizeWithin n t).SettlesWithin r k := by
  induction n generalizing k t with
  | zero => exact h
  | succ n ih =>
    have hname : ∀ name, (∀ d, r.StandsFor name d → d.target.SettlesWithin r k) →
        (r.normalizeWithin (n + 1) (.aggregate name)).SettlesWithin r k := by
      intro name h
      simp only [normalizeWithin]
      split
      next target ha => exact ih (Ty.settlesWithin_target h ha)
      next =>
        split
        · exact .enum h
        · exact .aggregate h
    cases h with
    | prim p => exact .prim p
    | seq elem => exact .seq _
    | ref inner mutable => exact .ref _ _
    | fn params ret => exact .fn _ _
    | aggregate h => exact hname _ h
    | enum h => exact hname _ h
    | tuple h => exact .tuple (List.forall_mem_map.2 fun e he => ih (h e he))
    | optional h => exact .optional (ih h)

end Registry

/-! ## Answers -/

namespace CopySet

/-- A check of items that gives more answers gives those of the items too. -/
theorem allWithin_eq_some {check check' : Ty → Option Bool} {ts : List Ty} {answer : Bool}
    (hcheck : ∀ t b, check t = some b → check' t = some b) (h : allWithin check ts = some answer) :
    allWithin check' ts = some answer := by
  induction ts with
  | nil => exact h
  | cons t ts ih =>
    rw [allWithin] at h ⊢
    cases ht : check t with
    | none => simp [ht] at h
    | some b =>
      rw [hcheck t b ht]
      rw [ht] at h
      cases b with
      | true => exact ih h
      | false => exact h

/-- One more layer keeps an answer. -/
theorem admitsWithin_succ {s : CopySet} {n : Nat} {t : Ty} {answer : Bool}
    (h : s.admitsWithin n t = some answer) : s.admitsWithin (n + 1) t = some answer := by
  induction n generalizing t answer with
  | zero => cases h
  | succ n ih =>
    rw [admitsWithin] at h ⊢
    generalize s.normalized t = u at h
    cases u with
    | tuple elems => exact allWithin_eq_some (fun _ _ => ih) h
    | optional inner => exact ih h
    | _ => exact h

/-- An answer that some layers give is given with one more. -/
theorem isDuplicableWithin_succ {s : CopySet} {n : Nat} {t : Ty} {answer : Bool}
    (h : s.isDuplicableWithin n t = some answer) : s.isDuplicableWithin (n + 1) t = some answer := by
  induction n generalizing t answer with
  | zero => cases h
  | succ n ih =>
    rw [isDuplicableWithin] at h ⊢
    generalize s.normalized t = u at h
    cases u with
    | tuple elems => exact allWithin_eq_some (fun _ _ => ih) h
    | optional inner => exact h
    | fn params ret => exact h
    | _ => exact admitsWithin_succ h

/-- An answer about a field that some layers give is given with more. -/
theorem admitsWithin_of_le {s : CopySet} {n m : Nat} {t : Ty} {answer : Bool} (hle : n ≤ m)
    (h : s.admitsWithin n t = some answer) : s.admitsWithin m t = some answer := by
  induction hle with
  | refl => exact h
  | step _ ih => exact admitsWithin_succ ih

/-- An answer about a variable that some layers give is given with more. -/
theorem isDuplicableWithin_of_le {s : CopySet} {n m : Nat} {t : Ty} {answer : Bool} (hle : n ≤ m)
    (h : s.isDuplicableWithin n t = some answer) : s.isDuplicableWithin m t = some answer := by
  induction hle with
  | refl => exact h
  | step _ ih => exact isDuplicableWithin_succ ih

/-- An answer within fewer layers than calls can be nested is the answer. -/
theorem admitsWithin_eq_admits {s : CopySet} {k n : Nat} {t : Ty} (h : (s.admitsWithin k t).isSome)
    (hk : k ≤ s.callBound t) (hn : k ≤ n) : s.admitsWithin n t = some (s.admits t) := by
  obtain ⟨answer, h⟩ := Option.isSome_iff_exists.1 h
  rw [admits, admitsWithin_of_le hk h, admitsWithin_of_le hn h]
  rfl

/-- The same of the other check. -/
theorem isDuplicableWithin_eq_isDuplicable {s : CopySet} {k n : Nat} {t : Ty}
    (h : (s.isDuplicableWithin k t).isSome) (hk : k ≤ s.callBound t) (hn : k ≤ n) :
    s.isDuplicableWithin n t = some (s.isDuplicable t) := by
  obtain ⟨answer, h⟩ := Option.isSome_iff_exists.1 h
  rw [isDuplicable, isDuplicableWithin_of_le hk h, isDuplicableWithin_of_le hn h]
  rfl

variable {r : Registry} {n : Nat} {t : Ty}

/-- Expanding the first layers of a type does not change within how many it settles. -/
theorem normalized_settlesWithin (names : List String) (h : t.SettlesWithin r n) :
    ((⟨names, some r⟩ : CopySet).normalized t).SettlesWithin r n :=
  Registry.normalizeWithin_settlesWithin _ h

/-- One layer more than the parts of a type are deep answers whether a field may have the type. -/
theorem admitsWithin_isSome_of_settles (names : List String) (h : t.SettlesWithin r n) :
    ((⟨names, some r⟩ : CopySet).admitsWithin (n + 1) t).isSome := by
  induction n generalizing t with
  | zero =>
    have hnorm := normalized_settlesWithin names h
    rw [admitsWithin]
    generalize (⟨names, some r⟩ : CopySet).normalized t = u at hnorm
    cases hnorm <;> rfl
  | succ n ih =>
    have hnorm := normalized_settlesWithin names h
    rw [admitsWithin]
    generalize (⟨names, some r⟩ : CopySet).normalized t = u at hnorm
    cases hnorm with
    | tuple h => exact allWithin_isSome fun e he => ih (h e he)
    | optional h => exact ih h
    | _ => rfl

/-- The same layers answer whether a variable of the type can be read repeatedly. -/
theorem isDuplicableWithin_isSome (names : List String) (h : t.SettlesWithin r n) :
    ((⟨names, some r⟩ : CopySet).isDuplicableWithin (n + 1) t).isSome := by
  induction n generalizing t with
  | zero =>
    have hnorm := normalized_settlesWithin names h
    rw [isDuplicableWithin]
    generalize (⟨names, some r⟩ : CopySet).normalized t = u at hnorm
    cases u with
    | tuple elems => cases hnorm
    | optional inner => rfl
    | fn params ret => rfl
    | _ => exact admitsWithin_isSome_of_settles names hnorm
  | succ n ih =>
    have hnorm := normalized_settlesWithin names h
    rw [isDuplicableWithin]
    generalize (⟨names, some r⟩ : CopySet).normalized t = u at hnorm
    cases u with
    | tuple elems =>
      cases hnorm with
      | tuple h => exact allWithin_isSome fun e he => ih (h e he)
    | optional inner => rfl
    | fn params ret => rfl
    | _ => exact admitsWithin_isSome_of_settles names hnorm

end CopySet

/-! ## Checks without an answer -/

/-- A check of the type comes to one of the names: the items before it in a tuple are plainly
duplicable, and the way leads through optionals only if that is said. -/
inductive Ty.LeadsTo (names : String → Prop) (optionals : Bool) : Ty → Prop where
  | aggregate {name : String} (h : names name) : LeadsTo names optionals (.aggregate name)
  | enum {name : String} (h : names name) : LeadsTo names optionals (.enum name)
  | tuple {before after : List Ty} {t : Ty}
      (hbefore : ∀ e ∈ before, ∃ p, e = .prim p ∧ p ≠ .ownedText)
      (h : LeadsTo names optionals t) : LeadsTo names optionals (.tuple (before ++ t :: after))
  | optional {inner : Ty} (hoptionals : optionals = true) (h : LeadsTo names optionals inner) :
    LeadsTo names optionals (.optional inner)

/-- Each of the names is an alias with parts that lead to one of them. -/
def Registry.Recurs (r : Registry) (names : String → Prop) (optionals : Bool) : Prop :=
  ∀ name, names name →
    ∃ target, r.alias? name = some target ∧ target.name? = none ∧ target.LeadsTo names optionals

namespace Registry

variable {r : Registry} {names : String → Prop} {optionals : Bool} {t : Ty}

/-- Expanding aliases keeps what a check comes to. -/
theorem Recurs.leadsTo_normalizeWithin (hr : r.Recurs names optionals) (n : Nat)
    (h : t.LeadsTo names optionals) : (r.normalizeWithin n t).LeadsTo names optionals := by
  induction n generalizing t with
  | zero => exact h
  | succ n ih =>
    cases h with
    | aggregate h | enum h =>
      obtain ⟨target, ha, -, hleads⟩ := hr _ h
      simp only [normalizeWithin, ha]
      exact ih hleads
    | tuple hbefore h =>
      rw [normalizeWithin, List.map_append, List.map_cons]
      refine .tuple (List.forall_mem_map.2 fun e he => ?_) (ih h)
      obtain ⟨p, rfl, hp⟩ := hbefore e he
      refine ⟨p, ?_, hp⟩
      cases n <;> rfl
    | optional hoptionals h => exact .optional hoptionals (ih h)

/-- A name does not stay one, since it is an alias of something else. -/
theorem Recurs.name?_normalizeWithin (hr : r.Recurs names optionals) (n : Nat)
    (h : t.LeadsTo names optionals) : (r.normalizeWithin (n + 2) t).name? = none := by
  cases h with
  | aggregate h | enum h =>
    obtain ⟨target, ha, hname, hleads⟩ := hr _ h
    simp only [normalizeWithin, ha]
    cases hleads with
    | aggregate | enum => cases hname
    | tuple | optional => rfl
  | tuple | optional => rfl

end Registry

namespace CopySet

variable {r : Registry} {names : String → Prop} {optionals : Bool} {t : Ty} (held : List String)

/-- A check of items gets no answer if one of them gets none and none before it fails. -/
theorem allWithin_eq_none {check : Ty → Option Bool} {before after : List Ty}
    (hbefore : ∀ e ∈ before, check e ≠ some false) (h : check t = none) :
    allWithin check (before ++ t :: after) = none := by
  induction before with
  | nil => simp [allWithin, h]
  | cons e before ih =>
    obtain ⟨he, hbefore⟩ := List.forall_mem_cons.1 hbefore
    rw [List.cons_append, allWithin]
    cases hanswer : check e with
    | none => rfl
    | some answer =>
      cases answer with
      | true => exact ih hbefore
      | false => exact absurd hanswer he

/-- A plain primitive type never keeps a field from being duplicable. -/
theorem admitsWithin_prim_ne {s : CopySet} {p : Prim} (hp : p ≠ .ownedText) (n : Nat) :
    s.admitsWithin n (.prim p) ≠ some false := by
  have hnorm : s.normalized (.prim p) = .prim p := by
    unfold normalized
    split <;> rfl
  cases n with
  | zero => nofun
  | succ n => simp [admitsWithin, hnorm, hp]

/-- A variable of a plain primitive type can always be read repeatedly. -/
theorem isDuplicableWithin_prim_ne {s : CopySet} {p : Prim} (hp : p ≠ .ownedText) (n : Nat) :
    s.isDuplicableWithin n (.prim p) ≠ some false := by
  have hnorm : s.normalized (.prim p) = .prim p := by
    unfold normalized
    split <;> rfl
  cases n with
  | zero => nofun
  | succ n =>
    rw [isDuplicableWithin, hnorm]
    exact admitsWithin_prim_ne hp (n + 1)

/-- Expanding the first layers of a type that leads to the names leaves a type that does, and it is no
name. -/
theorem normalized_leadsTo (hr : r.Recurs names optionals) (h : t.LeadsTo names optionals) :
    ((⟨held, some r⟩ : CopySet).normalized t).LeadsTo names optionals ∧
      ((⟨held, some r⟩ : CopySet).normalized t).name? = none :=
  ⟨hr.leadsTo_normalizeWithin _ h, hr.name?_normalizeWithin _ h⟩

/-- Whether a field may have a type is not answered if the type leads to aliases that lead back to
themselves. -/
theorem admitsWithin_eq_none (hr : r.Recurs names optionals) (h : t.LeadsTo names optionals)
    (n : Nat) : (⟨held, some r⟩ : CopySet).admitsWithin n t = none := by
  induction n generalizing t with
  | zero => rfl
  | succ n ih =>
    obtain ⟨hleads, hname⟩ := normalized_leadsTo held hr h
    rw [admitsWithin]
    generalize (⟨held, some r⟩ : CopySet).normalized t = u at hleads hname
    cases hleads with
    | aggregate | enum => cases hname
    | optional _ h => exact ih h
    | tuple hbefore h =>
      refine allWithin_eq_none (fun e he => ?_) (ih h)
      obtain ⟨p, rfl, hp⟩ := hbefore e he
      exact admitsWithin_prim_ne hp n

/-- Whether a variable can be read repeatedly is not answered if the way leads through tuples. -/
theorem isDuplicableWithin_eq_none (hr : r.Recurs names false) (h : t.LeadsTo names false)
    (n : Nat) : (⟨held, some r⟩ : CopySet).isDuplicableWithin n t = none := by
  induction n generalizing t with
  | zero => rfl
  | succ n ih =>
    obtain ⟨hleads, hname⟩ := normalized_leadsTo held hr h
    rw [isDuplicableWithin]
    generalize (⟨held, some r⟩ : CopySet).normalized t = u at hleads hname
    cases hleads with
    | aggregate | enum => cases hname
    | optional hoptionals => cases hoptionals
    | tuple hbefore h =>
      refine allWithin_eq_none (fun e he => ?_) (ih h)
      obtain ⟨p, rfl, hp⟩ := hbefore e he
      exact isDuplicableWithin_prim_ne hp n

end CopySet

/-! ## What a check goes on to ask -/

/-- The two checks of a type: whether a field of the type keeps its owner duplicable, and whether a
variable of the type can be read repeatedly. -/
inductive Check where
  | field
  | read

/-- Neither a tuple nor an optional nor a function type. -/
def Ty.isSimple : Ty → Bool
  | .tuple _ | .optional _ | .fn _ _ => false
  | _ => true

namespace CopySet

/-- The answer of a check, if that many layers tell. -/
def answerWithin (s : CopySet) : Check → Nat → Ty → Option Bool
  | .field => s.admitsWithin
  | .read => s.isDuplicableWithin

/-- What a check of a type, with its first layers expanded, goes on to check: the next item of a tuple
if the items before it pass, the type inside an optional, and for a variable of any other type but a
function what is checked for a field of it. -/
inductive Asks (s : CopySet) : Check × Ty → Check × Ty → Prop
  | item {check : Check} {t u : Ty} {before after : List Ty}
      (hty : s.normalized t = .tuple (before ++ u :: after))
      (hbefore : ∀ e ∈ before, ∃ n, s.answerWithin check n e = some true) :
    Asks s (check, t) (check, u)
  | inner {t u : Ty} (hty : s.normalized t = .optional u) : Asks s (.field, t) (.field, u)
  | simple {t u : Ty} (hty : s.normalized t = u) (hu : u.isSimple = true) :
    Asks s (.read, t) (.field, u)

variable {s : CopySet} {check : Check} {n m : Nat} {t : Ty} {answer : Bool}

/-- More layers keep an answer. -/
theorem answerWithin_of_le (hle : n ≤ m) (h : s.answerWithin check n t = some answer) :
    s.answerWithin check m t = some answer := by
  cases check with
  | field => exact admitsWithin_of_le hle h
  | read => exact isDuplicableWithin_of_le hle h

/-- A check has one answer. -/
theorem answerWithin_unique {answer' : Bool} (h : s.answerWithin check n t = some answer)
    (h' : s.answerWithin check m t = some answer') : answer = answer' := by
  have hmax := answerWithin_of_le (Nat.le_max_left n m) h
  rw [answerWithin_of_le (Nat.le_max_right n m) h'] at hmax
  exact (Option.some.inj hmax).symm

/-- A tuple is checked item by item. -/
theorem answerWithin_tuple (check : Check) {elems : List Ty} (hty : s.normalized t = .tuple elems) :
    s.answerWithin check (n + 1) t = allWithin (s.answerWithin check n) elems := by
  cases check with
  | field => simp only [answerWithin, admitsWithin, hty]
  | read => simp only [answerWithin, isDuplicableWithin, hty]

/-- Where a tuple has an answer, so has every item that is come to. -/
theorem exists_answer_item {before after : List Ty} {u : Ty}
    (h : allWithin (s.answerWithin check n) (before ++ u :: after) = some answer)
    (hbefore : ∀ e ∈ before, ∃ m, s.answerWithin check m e = some true) :
    ∃ answer', s.answerWithin check n u = some answer' := by
  cases hu : s.answerWithin check n u with
  | some answer' => exact ⟨answer', rfl⟩
  | none =>
    have hnone : allWithin (s.answerWithin check n) (before ++ u :: after) = none := by
      refine allWithin_eq_none (fun e he hfalse => ?_) hu
      obtain ⟨m, htrue⟩ := hbefore e he
      cases answerWithin_unique hfalse htrue
    rw [hnone] at h
    cases h

/-- Items that are answered as far as they are come to have an answer together. -/
theorem exists_answer_items (before after : List Ty)
    (hitems : ∀ first u rest, before ++ after = first ++ u :: rest →
      (∀ e ∈ first, ∃ m, s.answerWithin check m e = some true) →
      ∃ n answer, s.answerWithin check n u = some answer)
    (hbefore : ∀ e ∈ before, ∃ m, s.answerWithin check m e = some true) :
    ∃ n answer, allWithin (s.answerWithin check n) after = some answer := by
  induction after generalizing before with
  | nil => exact ⟨0, true, rfl⟩
  | cons u after ih =>
    obtain ⟨n, answer, hu⟩ := hitems before u after rfl hbefore
    cases answer with
    | false => exact ⟨n, false, by rw [allWithin, hu]⟩
    | true =>
      have hsplit : (before ++ [u]) ++ after = before ++ u :: after := List.append_assoc ..
      obtain ⟨m, answer, hafter⟩ := ih (before ++ [u])
        (fun first v rest heq => hitems first v rest (hsplit.symm.trans heq))
        (List.forall_mem_append.2 ⟨hbefore, List.forall_mem_singleton.2 ⟨n, hu⟩⟩)
      refine ⟨max n m, answer, ?_⟩
      rw [allWithin, answerWithin_of_le (Nat.le_max_left n m) hu]
      exact allWithin_eq_some (fun _ _ => answerWithin_of_le (Nat.le_max_right n m)) hafter

/-- A check that does not go on asking for ever has an answer. -/
theorem exists_answer_of_acc {q : Check × Ty} (h : Acc (fun q q' => s.Asks q' q) q) :
    ∃ n answer, s.answerWithin q.1 n q.2 = some answer := by
  induction h with
  | intro q _ ih =>
    obtain ⟨check, t⟩ := q
    cases hty : s.normalized t with
    | tuple elems =>
      obtain ⟨n, answer, hanswer⟩ := exists_answer_items [] elems
        (fun first u rest heq hfirst => ih (check, u) (.item (hty.trans (congrArg Ty.tuple heq)) hfirst))
        nofun
      exact ⟨n + 1, answer, by rw [answerWithin_tuple check hty, hanswer]⟩
    | optional inner =>
      cases check with
      | field =>
        obtain ⟨n, answer, hanswer⟩ := ih (.field, inner) (.inner hty)
        refine ⟨n + 1, answer, ?_⟩
        simp only [answerWithin, admitsWithin, hty]
        exact hanswer
      | read => exact ⟨1, false, by simp only [answerWithin, isDuplicableWithin, hty]⟩
    | fn params ret =>
      cases check with
      | field => exact ⟨1, false, by simp only [answerWithin, admitsWithin, hty]⟩
      | read => exact ⟨1, false, by simp only [answerWithin, isDuplicableWithin, hty]⟩
    | _ =>
      cases check with
      | field =>
        refine ⟨1, ?_⟩
        simp only [answerWithin, admitsWithin, hty]
        exact ⟨_, rfl⟩
      | read =>
        obtain ⟨n, answer, hanswer⟩ := ih (.field, _) (.simple hty rfl)
        refine ⟨n + 1, answer, ?_⟩
        simp only [answerWithin, isDuplicableWithin, hty]
        exact admitsWithin_succ hanswer

/-- A check of a field with an answer does not go on asking for ever. -/
theorem acc_of_admitsWithin (h : s.admitsWithin n t = some answer) :
    Acc (fun q q' => s.Asks q' q) (.field, t) := by
  induction n generalizing t answer with
  | zero => cases h
  | succ n ih =>
    refine .intro _ fun q hasks => ?_
    cases hasks with
    | item hty hbefore =>
      rw [show s.admitsWithin (n + 1) t = _ from answerWithin_tuple .field hty] at h
      obtain ⟨answer', hu⟩ := exists_answer_item h hbefore
      exact ih hu
    | inner hty =>
      rw [admitsWithin, hty] at h
      exact ih h

/-- A check of a variable with an answer does not go on asking for ever. -/
theorem acc_of_isDuplicableWithin (h : s.isDuplicableWithin n t = some answer) :
    Acc (fun q q' => s.Asks q' q) (.read, t) := by
  induction n generalizing t answer with
  | zero => cases h
  | succ n ih =>
    refine .intro _ fun q hasks => ?_
    cases hasks with
    | item hty hbefore =>
      rw [show s.isDuplicableWithin (n + 1) t = _ from answerWithin_tuple .read hty] at h
      obtain ⟨answer', hu⟩ := exists_answer_item h hbefore
      exact ih hu
    | @simple _ u hty hu =>
      have hfield : s.admitsWithin (n + 1) u = some answer := by
        rw [isDuplicableWithin, hty] at h
        cases u with
        | tuple | optional | fn => cases hu
        | _ => exact h
      exact acc_of_admitsWithin hfield

/-- However aliases contain themselves, a check is answered by some number of layers exactly if it does
not go on asking for ever. -/
theorem answered_iff_acc (check : Check) (t : Ty) :
    (∃ n answer, s.answerWithin check n t = some answer) ↔
      Acc (fun q q' => s.Asks q' q) (check, t) := by
  refine ⟨fun ⟨n, answer, h⟩ => ?_, exists_answer_of_acc⟩
  cases check with
  | field => exact acc_of_admitsWithin h
  | read => exact acc_of_isDuplicableWithin h

end CopySet

/-! ## Aliases that contain themselves -/

namespace Registry

/-- Aliases that contain themselves, though none is a part of itself. -/
def harmlessCycles : Registry :=
  { Registry.empty with aliases := [
      ⟨.zero, "Tree", .seq (.aggregate "Tree")⟩,
      ⟨.zero, "Link", .tuple [.ref (.aggregate "Link") false, .f64]⟩,
      ⟨.zero, "Same", .aggregate "Other"⟩,
      ⟨.zero, "Other", .aggregate "Same"⟩] }

/-- What a name stands for is not just another name. -/
theorem StandsFor.name?_target {r : Registry} {name : String} {d : AliasDecl}
    (h : r.StandsFor name d) : d.target.name? = none := by
  induction h with
  | last _ hd => exact hd
  | next _ _ _ ih => exact ih

/-- The aliases of the example are no parts of themselves. -/
theorem harmlessCycles_grounded : harmlessCycles.Grounded := by
  have hparts : ∀ d ∈ harmlessCycles.aliases, d.target.name? = none → d.target.partNames = [] := by
    decide
  intro name hcycle
  obtain ⟨_, ⟨d, hd, hpart⟩, _⟩ := Relation.TransGen.head'_iff.1 hcycle
  rw [hparts d hd.mem_aliases hd.name?_target] at hpart
  cases hpart

/-- An alias of a pair with itself. -/
def endlessChain : Registry :=
  { Registry.empty with aliases := [⟨.zero, "Chain", .tuple [.f64, .aggregate "Chain"]⟩] }

/-- The alias of the example leads to itself. -/
theorem endlessChain_recurs : endlessChain.Recurs (· = "Chain") false := by
  rintro _ rfl
  have hleads : (Ty.tuple ([.f64] ++ .aggregate "Chain" :: [])).LeadsTo (· = "Chain") false :=
    .tuple (List.forall_mem_singleton.2 ⟨_, rfl, nofun⟩) (.aggregate rfl)
  exact ⟨_, rfl, rfl, hleads⟩

end Registry

end Oxidize
