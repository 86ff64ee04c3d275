import Oxidize.Proofs.Duplicable.Answers
import Oxidize.Proofs.Duplicable.LeastClosure
import Oxidize.Usage.Report

/-!
# Where the passes that check types end

The closure of the duplicable declarations checks the types of fields, and the analysis of a function
checks the types of its variables. `Program.copyClosureWithin` and `FunctionDecl.usageWithin` make the
same passes with checks that descend a given number of layers, and have no result where a check has no
answer then. Where no alias is a part of itself, some number of layers suffices for every check of a
program, so that both passes end with their results (`CopySet.checks_answered`).
-/

namespace Oxidize

/-! ## The closure -/

/-- The types that a declaration has checked: those of the fields of an aggregate. -/
def Decl.fieldTys : Decl → List Ty
  | .struct s => s.fields.map (·.ty)
  | _ => []

/-- Tags do not change the types of fields. -/
@[simp] theorem Decl.fieldTys_withCopyTags (d : Decl) : d.withCopyTags.fieldTys = d.fieldTys := by
  cases d <;> rfl

/-- `Decl.promotable?` with checks that descend at most `n` layers. -/
def Decl.promotableWithin? (n : Nat) (set : CopySet) : Decl → Option (Option String)
  | .struct s =>
    if set.contains s.name then some none
    else (CopySet.allWithin (set.admitsWithin n) (s.fields.map (·.ty))).map fun admitted =>
      if admitted then some s.name else none
  | _ => some none

namespace ClosureState

/-- `ClosureState.passOver` with checks that descend at most `n` layers. -/
def passOverWithin (n : Nat) : CopySet → List Decl → Option ClosureState
  | set, [] => some ⟨[], set⟩
  | set, d :: ds => do
    match ← d.promotableWithin? n set with
    | some name =>
      let rest ← passOverWithin n (set.insert name) ds
      return ⟨d.withCopyTags :: rest.decls, rest.set⟩
    | none =>
      let rest ← passOverWithin n set ds
      return ⟨d :: rest.decls, rest.set⟩

/-- Whether none of the declarations is left to tag, with checks that descend at most `n` layers. -/
def noneLeftWithin (n : Nat) (set : CopySet) : List Decl → Option Bool
  | [] => some true
  | d :: ds => do
    match ← d.promotableWithin? n set with
    | some _ => return false
    | none => noneLeftWithin n set ds

/-- `ClosureState.settle` with checks that descend at most `n` layers. -/
def settleWithin (n : Nat) : Nat → Nat → ClosureState → Option (ClosureState × ClosureOutcome)
  | 0, done, s => do return (s, s.outcome done (← noneLeftWithin n s.set s.decls))
  | left + 1, done, s => do
    let next ← passOverWithin n s.set s.decls
    if next.set.names.length = s.set.names.length then
      return (next, next.outcome (done + 1) true)
    else settleWithin n left (done + 1) next

end ClosureState

/-- `Program.copyClosure` with checks that descend at most `n` layers. -/
def Program.copyClosureWithin (n : Nat) (p : Program) (cap : Nat) : Option (Program × ClosureOutcome) :=
  (ClosureState.settleWithin n cap 0 (.start p)).map fun (s, outcome) => (⟨s.decls⟩, outcome)

/-- Every check of the type by the declarations is answered within that many layers. -/
structure Ty.AnsweredWithin (r : Registry) (n : Nat) (t : Ty) : Prop where
  field : ∀ set : CopySet, set.registry = some r → set.admitsWithin n t = some (set.admits t)
  read : ∀ set : CopySet, set.registry = some r → set.isDuplicableWithin n t = some (set.isDuplicable t)

/-- Where no alias is a part of itself, the bound of a type answers every check of it. -/
theorem Registry.Grounded.answeredWithin {r : Registry} (hr : r.Grounded) {n : Nat} {t : Ty}
    (hn : r.expansionBound t ≤ n) : t.AnsweredWithin r n := by
  constructor
  · rintro ⟨held, _⟩ rfl
    exact CopySet.admitsWithin_eq_admits
      (CopySet.admitsWithin_isSome_of_settles held (hr.settlesWithin t)) (Nat.le_add_right _ _) hn
  · rintro ⟨held, _⟩ rfl
    exact CopySet.isDuplicableWithin_eq_isDuplicable
      (CopySet.isDuplicableWithin_isSome held (hr.settlesWithin t)) (Nat.le_add_right _ _) hn

section
variable {r : Registry} {n : Nat} {set : CopySet} (hset : set.registry = some r)
include hset

/-- A declaration is judged as without a limit if the checks of its fields are answered. -/
theorem Decl.promotableWithin?_eq {d : Decl} (h : ∀ t ∈ d.fieldTys, t.AnsweredWithin r n) :
    d.promotableWithin? n set = some (d.promotable? set) := by
  cases d with
  | struct s =>
    have hall : ∀ ts : List Ty, (∀ t ∈ ts, t.AnsweredWithin r n) →
        CopySet.allWithin (set.admitsWithin n) ts = some (ts.all set.admits) := by
      intro ts hts
      induction ts with
      | nil => rfl
      | cons t ts ih =>
        rw [CopySet.allWithin, (hts t (.head _)).field set hset, List.all_cons]
        cases set.admits t with
        | true => exact ih fun u hu => hts u (.tail _ hu)
        | false => rfl
    have hfields := hall (s.fields.map FieldDecl.ty) h
    rw [List.all_map] at hfields
    rw [promotableWithin?, promotable?, hfields]
    cases set.contains s.name <;> rfl
  | _ => rfl

/-- Nor does a limit show where it is asked whether anything is left to tag. -/
theorem ClosureState.noneLeftWithin_eq {ds : List Decl}
    (h : ∀ d ∈ ds, ∀ t ∈ d.fieldTys, t.AnsweredWithin r n) :
    noneLeftWithin n set ds = some (ds.all fun d => (d.promotable? set).isNone) := by
  induction ds with
  | nil => rfl
  | cons d ds ih =>
    rw [noneLeftWithin, Decl.promotableWithin?_eq hset (h d (.head _)), List.all_cons]
    cases d.promotable? set with
    | some name => rfl
    | none => exact ih fun d' hd' => h d' (.tail _ hd')

end

namespace ClosureState

variable {r : Registry} {n : Nat}

/-- The sets of a pass go by the declarations of its start. -/
theorem registry_passOver (pass : Nat) (set : CopySet) (ds : List Decl) :
    (passOver pass set ds).value.set.registry = set.registry := by
  induction ds generalizing set with
  | nil => rfl
  | cons d ds ih =>
    rw [passOver]
    cases d.promotable? set with
    | some name => exact (ih (set.insert name)).trans (CopySet.registry_insert set name)
    | none => exact ih set

/-- A pass changes no field. -/
theorem fieldTys_passOver (pass : Nat) (set : CopySet) (ds : List Decl) :
    (passOver pass set ds).value.decls.map Decl.fieldTys = ds.map Decl.fieldTys := by
  induction ds generalizing set with
  | nil => rfl
  | cons d ds ih =>
    rw [passOver]
    cases d.promotable? set with
    | some name => exact congrArg₂ List.cons d.fieldTys_withCopyTags (ih (set.insert name))
    | none => exact congrArg (d.fieldTys :: ·) (ih set)

/-- The checks of all fields of the declarations are answered within that many layers. -/
def FieldsAnswered (r : Registry) (n : Nat) (ds : List Decl) : Prop :=
  ∀ tys ∈ ds.map Decl.fieldTys, ∀ t ∈ tys, t.AnsweredWithin r n

/-- The checks of the fields of each declaration are answered if those of all are. -/
theorem FieldsAnswered.of_mem {ds : List Decl} (h : FieldsAnswered r n ds) :
    ∀ d ∈ ds, ∀ t ∈ d.fieldTys, t.AnsweredWithin r n :=
  fun d hd => h d.fieldTys (List.mem_map_of_mem hd)

/-- A pass does the same with a limit that answers all its checks. -/
theorem passOverWithin_eq (pass : Nat) {set : CopySet} (hset : set.registry = some r) {ds : List Decl}
    (h : ∀ d ∈ ds, ∀ t ∈ d.fieldTys, t.AnsweredWithin r n) :
    passOverWithin n set ds = some (passOver pass set ds).value := by
  induction ds generalizing set with
  | nil => rfl
  | cons d ds ih =>
    rw [passOverWithin, passOver, Decl.promotableWithin?_eq hset (h d (.head _))]
    have hrest : ∀ d' ∈ ds, ∀ t ∈ d'.fieldTys, t.AnsweredWithin r n := fun d' hd' => h d' (.tail _ hd')
    cases d.promotable? set with
    | some name =>
      have hinsert : (set.insert name).registry = some r := (CopySet.registry_insert set name).trans hset
      simp only [Option.bind_eq_bind, Option.bind_some, ih hinsert hrest]
      rfl
    | none =>
      simp only [Option.bind_eq_bind, Option.bind_some, ih hset hrest]
      rfl

/-- Passes do the same with a limit that answers all their checks. -/
theorem settleWithin_eq (left done : Nat) {s : ClosureState} (hset : s.set.registry = some r)
    (h : FieldsAnswered r n s.decls) : settleWithin n left done s = some (settle left done s).value := by
  induction left generalizing done s with
  | zero =>
    rw [settleWithin, noneLeftWithin_eq hset h.of_mem]
    rfl
  | succ left ih =>
    rw [settleWithin, passOverWithin_eq (done + 1) hset h.of_mem, settle]
    simp only [Option.bind_eq_bind, Option.bind_some, Traced.value_bind]
    split
    · rfl
    · refine ih (done + 1) ((registry_passOver ..).trans hset) ?_
      rw [FieldsAnswered, fieldTys_passOver]
      exact h

end ClosureState

/-- The closure ends with its outcome if the checks of all fields are answered. -/
theorem Program.copyClosureWithin_eq {p : Program} {n : Nat}
    (h : ClosureState.FieldsAnswered (.ofProgram p) n p.decls) (cap : Nat) :
    p.copyClosureWithin n cap = some (p.copyClosure cap).value := by
  have hstart : (ClosureState.start p).decls.map Decl.fieldTys = p.decls.map Decl.fieldTys := by
    rw [ClosureState.start, List.map_map]
    refine List.map_congr_left fun d _ => ?_
    rw [Function.comp_apply]
    split
    · exact d.fieldTys_withCopyTags
    · rfl
  have hfields : ClosureState.FieldsAnswered (.ofProgram p) n (ClosureState.start p).decls := by
    rw [ClosureState.FieldsAnswered, hstart]
    exact h
  rw [copyClosureWithin, ClosureState.settleWithin_eq cap 0 (ClosureState.registry_start p) hfields]
  rfl

/-! ## The analysis of a function -/

/-- `UsageReport.ofBindings` with checks that descend at most `n` layers. -/
def UsageReport.ofBindingsWithin (n : Nat) (copy : CopySet) (bindings : List VarUsage) :
    Option UsageReport := do
  let judged ← bindings.mapM fun u =>
    (copy.isDuplicableWithin n u.ty).map fun duplicable => (u, !duplicable && decide (1 < u.reads))
  return {
    bindings := bindings
    needsDuplication := (judged.zipIdx.filter fun u => u.1.2).map (·.2)
    canBorrow :=
      (judged.zipIdx.filter fun u => !u.1.2 && u.1.1.writes == 1 && u.1.1.reads == 1).map (·.2) }

/-- `FunctionDecl.usage` with checks that descend at most `n` layers. -/
def FunctionDecl.usageWithin (n : Nat) (copy : CopySet) (f : FunctionDecl) : Option UsageReport :=
  let events := f.usageEvents copy.registry
  UsageReport.ofBindingsWithin n copy ((declaredVars events).zipIdx.map fun ((name, ty, isParam), id) =>
    .ofEvents events name ty isParam id)

/-- Results that are all there are there together. -/
theorem mapM_eq_some_map {α β : Type} {f : α → Option β} {g : α → β} {as : List α}
    (h : ∀ a ∈ as, f a = some (g a)) : as.mapM f = some (as.map g) := by
  induction as with
  | nil => rfl
  | cons a as ih =>
    rw [List.mapM_cons, h a (.head _), ih fun a' ha' => h a' (.tail _ ha')]
    rfl

/-- An analysis ends with its report if the checks of all variables are answered. -/
theorem UsageReport.ofBindingsWithin_eq {r : Registry} {n : Nat} {copy : CopySet}
    (hcopy : copy.registry = some r) {bindings : List VarUsage}
    (h : ∀ u ∈ bindings, u.ty.AnsweredWithin r n) :
    ofBindingsWithin n copy bindings = some (.ofBindings copy bindings) := by
  have hjudged : bindings.mapM (fun u => (copy.isDuplicableWithin n u.ty).map fun duplicable =>
      (u, !duplicable && decide (1 < u.reads))) =
        some (bindings.map fun u => (u, u.needsDuplication copy)) := by
    refine mapM_eq_some_map fun u hu => ?_
    rw [(h u hu).read copy hcopy]
    rfl
  rw [ofBindingsWithin, hjudged, Option.bind_eq_bind, Option.bind_some, List.zipIdx_map,
    List.filter_map, List.filter_map, List.map_map, List.map_map]
  rfl

/-! ## All passes -/

/-- There are as many layers as types have bounds. -/
theorem Registry.exists_expansionBound_le (r : Registry) (ts : List Ty) :
    ∃ bound, ∀ t ∈ ts, r.expansionBound t ≤ bound := by
  induction ts with
  | nil => exact ⟨0, List.forall_mem_nil _⟩
  | cons t ts ih =>
    obtain ⟨bound, hbound⟩ := ih
    refine ⟨max (r.expansionBound t) bound, List.forall_mem_cons.2 ⟨Nat.le_max_left _ _, ?_⟩⟩
    exact fun u hu => Nat.le_trans (hbound u hu) (Nat.le_max_right _ _)

namespace CopySet

/-- **The checks of a type end unless an alias is a part of itself.** Where none is, each check of
every type is answered, with every set of names, within the bound on the layers, and so the closure of a
program with such declarations and the analysis of each of its functions end with their results. The
check of an alias whose parts lead back to it is not answered by any number of layers. Whatever the
aliases are, a check is answered by some number of layers exactly if it does not go on asking for ever. -/
theorem checks_answered (r : Registry) :
    (r.Grounded → ∀ held t, ∃ admitted duplicable : Bool,
      let s : CopySet := ⟨held, some r⟩
      s.admits t = admitted ∧ s.isDuplicable t = duplicable ∧
        ∀ n, r.expansionBound t ≤ n →
          s.admitsWithin n t = some admitted ∧ s.isDuplicableWithin n t = some duplicable) ∧
    (∀ names optionals, r.Recurs names optionals → ∀ t, t.LeadsTo names optionals → ∀ held n,
      let s : CopySet := ⟨held, some r⟩
      s.admitsWithin n t = none ∧ (optionals = false → s.isDuplicableWithin n t = none)) ∧
    (∀ held t, let s : CopySet := ⟨held, some r⟩
      ((∃ n answer, s.admitsWithin n t = some answer) ↔ Acc (fun q q' => s.Asks q' q) (.field, t)) ∧
      ((∃ n answer, s.isDuplicableWithin n t = some answer) ↔
        Acc (fun q q' => s.Asks q' q) (.read, t))) ∧
    ∀ p, Registry.ofProgram p = r → r.Grounded → ∃ bound, ∀ n, bound ≤ n →
      (∀ cap, p.copyClosureWithin n cap = some (p.copyClosure cap).value) ∧
      ∀ copy : CopySet, copy.registry = some r → ∀ f ∈ p.bodies,
        f.usageWithin n copy = some (f.usage copy) := by
  refine ⟨fun hr held t => ?_, fun names optionals hr t ht held n => ⟨?_, ?_⟩,
    fun held t => ⟨answered_iff_acc .field t, answered_iff_acc .read t⟩, fun p hp hr => ?_⟩
  · exact ⟨_, _, rfl, rfl, fun n hn => ⟨(hr.answeredWithin hn).field _ rfl,
      (hr.answeredWithin hn).read _ rfl⟩⟩
  · exact admitsWithin_eq_none held hr ht n
  · rintro rfl
    exact isDuplicableWithin_eq_none held hr ht n
  · subst hp
    obtain ⟨fields, hfields⟩ := (Registry.ofProgram p).exists_expansionBound_le
      (p.decls.flatMap Decl.fieldTys)
    obtain ⟨vars, hvars⟩ := (Registry.ofProgram p).exists_expansionBound_le
      (p.bodies.flatMap fun f =>
        (declaredVars (f.usageEvents (some (.ofProgram p)))).map fun v => v.2.1)
    refine ⟨max fields vars, fun n hn => ⟨fun cap => ?_, fun copy hcopy f hf => ?_⟩⟩
    · refine Program.copyClosureWithin_eq (fun tys htys t ht => ?_) cap
      obtain ⟨d, hd, rfl⟩ := List.mem_map.1 htys
      exact hr.answeredWithin (Nat.le_trans (hfields t (List.mem_flatMap.2 ⟨d, hd, ht⟩))
        (Nat.le_trans (Nat.le_max_left _ _) hn))
    · refine UsageReport.ofBindingsWithin_eq hcopy fun u hu => ?_
      obtain ⟨⟨v, id⟩, hv, rfl⟩ := List.mem_map.1 hu
      rw [hcopy] at hv
      have hmem : v.2.1 ∈ (declaredVars (f.usageEvents (some (.ofProgram p)))).map fun v => v.2.1 :=
        List.mem_map.2 ⟨v, List.fst_mem_of_mem_zipIdx hv, rfl⟩
      exact hr.answeredWithin (Nat.le_trans (hvars _ (List.mem_flatMap.2 ⟨f, hf, hmem⟩))
        (Nat.le_trans (Nat.le_max_right _ _) hn))

end CopySet

/-- Aliases may contain themselves, and a check still ends; of an alias that is a part of itself it does
not. -/
theorem CopySet.checks_answered_cycles :
    Registry.harmlessCycles.Grounded ∧
      (∀ n, 4 ≤ n →
        let s : CopySet := ⟨[], some .harmlessCycles⟩
        s.admitsWithin n (.aggregate "Link") = some true ∧
          s.isDuplicableWithin n (.aggregate "Link") = some true) ∧
      Registry.endlessChain.Recurs (· = "Chain") false ∧
      ∀ held n, (⟨held, some .endlessChain⟩ : CopySet).isDuplicableWithin n (.enum "Chain") = none := by
  obtain ⟨admitted, duplicable, ha, hd, hall⟩ := (checks_answered .harmlessCycles).1
    Registry.harmlessCycles_grounded [] (.aggregate "Link")
  have ha' : (⟨[], some .harmlessCycles⟩ : CopySet).admits (.aggregate "Link") = true := by
    decide +kernel
  have hd' : (⟨[], some .harmlessCycles⟩ : CopySet).isDuplicable (.aggregate "Link") = true := by
    decide +kernel
  refine ⟨Registry.harmlessCycles_grounded, fun n hn => ?_, Registry.endlessChain_recurs,
    fun held n => ?_⟩
  · rw [ha.symm.trans ha', hd.symm.trans hd'] at hall
    exact hall n hn
  · exact ((checks_answered .endlessChain).2.1 _ _ Registry.endlessChain_recurs _ (.enum rfl) held
      n).2 rfl

/-- Neither check of the alias is answered, however long it goes on. -/
theorem Registry.endlessChain_unanswered :
    endlessChain.aliasDecl? "Chain" = some ⟨.zero, "Chain", .tuple [.f64, .aggregate "Chain"]⟩ ∧
      ∀ held n, let s : CopySet := ⟨held, some .endlessChain⟩
        s.admitsWithin n (.aggregate "Chain") = none ∧
          s.isDuplicableWithin n (.aggregate "Chain") = none :=
  ⟨rfl, fun held n => ⟨CopySet.admitsWithin_eq_none held endlessChain_recurs (.aggregate rfl) n,
    CopySet.isDuplicableWithin_eq_none held endlessChain_recurs (.aggregate rfl) n⟩⟩

end Oxidize
