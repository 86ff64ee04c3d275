import Oxidize.Compile
import Oxidize.Proofs.Duplicable.Composition
import Oxidize.Proofs.Typing.Resolved

/-!
# Declarations of different kinds may alternate freely

A program is compiled by its aggregates, its enums, its aliases, its method blocks and its
functions, each in order; how declarations of different kinds alternate plays no part. Programs that
differ in nothing else are related by `Program.Interleaves`, and every step of the compilation keeps
them so: type resolution, since each body is resolved by the registry alone; a pass of the closure,
since it goes by the aggregates and a set of names whose order does not show
(`ClosureState.passOver_structs`). What comes after reads the declarations by kind.

Only the records of the steps come in another order, and with them the first fault. So the result is
the same where faults are no errors (`Program.compile_eq_of_interleaves`).
-/

namespace Oxidize

/-! ## The same declarations of each kind -/

/-- The declarations of each kind are the same and come in the same order: one list of declarations
is a rearrangement of the other in which none moves past another of its kind. -/
structure Program.Interleaves (p q : Program) : Prop where
  structs : p.structs = q.structs
  enums : p.enums = q.enums
  aliases : p.aliases = q.aliases
  impls : p.impls = q.impls
  functions : p.functions = q.functions

namespace Program.Interleaves

variable {p q : Program}

/-- Interleaved programs have the same registry. -/
theorem registry (h : p.Interleaves q) : Registry.ofProgram p = Registry.ofProgram q := by
  rw [Registry.ofProgram, Registry.ofProgram, h.structs, h.enums, h.aliases, h.impls, h.functions]

/-- Interleaved programs have the same functions and methods, in the same order. -/
theorem bodies (h : p.Interleaves q) : p.bodies = q.bodies := by
  rw [Program.bodies, Program.bodies, h.impls, h.functions]

/-- Interleaved programs have the same duplicable names. -/
theorem copySet (h : p.Interleaves q) (r : Registry) :
    CopySet.ofProgram p r = CopySet.ofProgram q r := by
  rw [CopySet.ofProgram, CopySet.ofProgram, h.structs, h.enums]

/-- Each body is resolved by the registry alone. -/
theorem resolve (h : p.Interleaves q) : p.resolve.value.Interleaves q.resolve.value where
  structs := by
    rw [Program.structs, p.filterMap_resolve _ fun d => by cases d <;> rfl]
    exact h.structs.trans (q.filterMap_resolve _ fun d => by cases d <;> rfl).symm
  enums := by
    rw [Program.enums, p.filterMap_resolve _ fun d => by cases d <;> rfl]
    exact h.enums.trans (q.filterMap_resolve _ fun d => by cases d <;> rfl).symm
  aliases := by
    rw [Program.aliases, p.filterMap_resolve _ fun d => by cases d <;> rfl]
    exact h.aliases.trans (q.filterMap_resolve _ fun d => by cases d <;> rfl).symm
  impls := by rw [p.impls_resolve, q.impls_resolve, h.registry, h.impls]
  functions := by rw [p.functions_resolve, q.functions_resolve, h.registry, h.functions]

end Program.Interleaves

/-! ## The closure of duplicable declarations -/

namespace ClosureState

/-- The aggregates among declarations, as declarations. -/
def structsOnly (ds : List Decl) : List Decl :=
  (ds.filterMap Decl.struct?).map .struct

/-- Only aggregates are offered. -/
theorem offers_structsOnly (ds : List Decl) (set : CopySet) :
    offers (structsOnly ds) set = offers ds set := by
  rw [offers, offers, structsOnly, List.map_filterMap, List.filterMap_filterMap]
  exact List.filterMap_congr fun d _ => by cases d <;> rfl

/-- A pass goes by the aggregates: among other declarations it does to them and to the set what it
does without the others. -/
theorem passOver_structs (pass : Nat) (set : CopySet) (ds : List Decl) :
    (passOver pass set ds).value.set = (passOver pass set (structsOnly ds)).value.set ∧
      structsOnly (passOver pass set ds).value.decls =
        (passOver pass set (structsOnly ds)).value.decls := by
  induction ds generalizing set with
  | nil => exact ⟨rfl, rfl⟩
  | cons d ds ih =>
    cases d with
    | struct s =>
      have hcons : structsOnly (.struct s :: ds) = .struct s :: structsOnly ds := rfl
      rw [hcons, passOver, passOver]
      cases Decl.promotable? set (.struct s) with
      | some name =>
        obtain ⟨hset, hdecls⟩ := ih (set.insert name)
        exact ⟨hset, congrArg (List.cons _) hdecls⟩
      | none =>
        obtain ⟨hset, hdecls⟩ := ih set
        exact ⟨hset, congrArg (List.cons _) hdecls⟩
    | _ => exact ih set

/-- A pass keeps the declarations of every other kind. -/
theorem filterMap_passOver {α : Type} {view : Decl → Option α} (hview : ∀ s, view (.struct s) = none)
    (pass : Nat) (set : CopySet) (ds : List Decl) :
    (passOver pass set ds).value.decls.filterMap view = ds.filterMap view := by
  induction ds generalizing set with
  | nil => rfl
  | cons d ds ih =>
    rw [passOver]
    cases d with
    | struct s =>
      split <;>
        simp only [Traced.value_bind, Traced.value_pure, List.filterMap_cons, Decl.withCopyTags,
          hview, ih]
    | _ => simp only [Decl.promotable?, Traced.value_bind, Traced.value_pure, List.filterMap_cons, ih]

/-- The same declarations of each kind, tags included, and sets that admit the same. -/
structure Interleaves (s t : ClosureState) : Prop where
  decls : Program.Interleaves ⟨s.decls⟩ ⟨t.decls⟩
  set : s.set.Alike t.set

namespace Interleaves

variable {s t : ClosureState}

/-- Interleaved states have the same aggregates, in the same order. -/
theorem structsOnly_eq (h : s.Interleaves t) : structsOnly s.decls = structsOnly t.decls :=
  congrArg (List.map Decl.struct) h.decls.structs

/-- A pass over interleaved states ends in interleaved states. -/
theorem passOver (h : s.Interleaves t) (pass : Nat) :
    (passOver pass s.set s.decls).value.Interleaves (passOver pass t.set t.decls).value := by
  obtain ⟨hset, hdecls⟩ := passOver_structs pass s.set s.decls
  obtain ⟨hset', hdecls'⟩ := passOver_structs pass t.set t.decls
  have halike := passOver_alike h.set pass pass (structsOnly s.decls)
  nth_rewrite 2 [h.structsOnly_eq] at halike
  have hkeep : ∀ {α : Type} {view : Decl → Option α}, (∀ s, view (.struct s) = none) →
      s.decls.filterMap view = t.decls.filterMap view →
      (ClosureState.passOver pass s.set s.decls).value.decls.filterMap view =
        (ClosureState.passOver pass t.set t.decls).value.decls.filterMap view := by
    intro α view hview heq
    rw [filterMap_passOver hview, filterMap_passOver hview, heq]
  refine ⟨⟨?_, hkeep (fun _ => rfl) h.decls.enums, hkeep (fun _ => rfl) h.decls.aliases,
    hkeep (fun _ => rfl) h.decls.impls, hkeep (fun _ => rfl) h.decls.functions⟩, ?_⟩
  · have hstructs := hdecls.trans (halike.decls.trans hdecls'.symm)
    exact List.map_injective_iff.2 (fun _ _ => Decl.struct.inj) hstructs
  · rw [hset, hset']
    exact halike.set

/-- Interleaved states are settled alike. -/
theorem isSettled (h : s.Interleaves t) : s.isSettled = t.isSettled := by
  have hoffers : offers s.decls s.set = offers t.decls t.set := by
    rw [← offers_structsOnly, h.structsOnly_eq, offers_structsOnly]
    exact List.filterMap_congr fun d _ => h.set.promotable? d
  rw [Bool.eq_iff_iff, isSettled_iff, isSettled_iff, hoffers]

/-- The names of the outcome are sorted, so the order in which they were found does not show. -/
theorem outcome (h : s.Interleaves t) (iterations : Nat) (converged : Bool) :
    s.outcome iterations converged = t.outcome iterations converged := by
  rw [ClosureState.outcome, ClosureState.outcome, h.set.sorted_eq]

/-- Interleaved states settle in interleaved states and with the same outcome. -/
theorem settle (h : s.Interleaves t) (left done : Nat) :
    (settle left done s).value.1.Interleaves (settle left done t).value.1 ∧
      (settle left done s).value.2 = (settle left done t).value.2 := by
  induction left generalizing done s t with
  | zero =>
    refine ⟨h, ?_⟩
    rw [ClosureState.settle, ClosureState.settle, h.isSettled]
    exact h.outcome _ _
  | succ left ih =>
    have hnext := h.passOver (done + 1)
    rw [ClosureState.settle, ClosureState.settle, Traced.value_bind, Traced.value_bind,
      hnext.set.names.length_eq, h.set.names.length_eq]
    split
    · exact ⟨hnext, hnext.outcome _ _⟩
    · exact ih hnext _

end Interleaves

/-- The tags at the start are given to each declaration on its own. -/
theorem filterMap_start {α : Type} {view : Decl → Option α} (mk : α → Decl)
    (hmk : ∀ d a, view d = some a → d = mk a)
    (htags : ∀ d, (view d.withCopyTags).isSome = (view d).isSome)
    {p q : Program} (h : p.decls.filterMap view = q.decls.filterMap view) :
    (start p).decls.filterMap view = (start q).decls.filterMap view := by
  have hstart : ∀ p : Program, (start p).decls.filterMap view = (p.decls.filterMap view).filterMap
      fun a => view (if (mk a).seed?.isSome then (mk a).withCopyTags else mk a) := by
    intro p
    rw [start, List.filterMap_map, List.filterMap_filterMap]
    refine List.filterMap_congr fun d _ => ?_
    cases hd : view d with
    | some a => rw [hmk d a hd]; rfl
    | none =>
      have hnone : view d.withCopyTags = none := by
        rw [← Option.isNone_iff_eq_none, ← Option.not_isSome, htags, hd]
        rfl
      rw [Function.comp_apply, apply_ite view, hnone, hd, ite_self]
      rfl
  rw [hstart, hstart, h]

/-- Interleaved programs start from interleaved states. -/
theorem start_interleaves {p q : Program} (h : p.Interleaves q) :
    (start p).Interleaves (start q) where
  decls := {
    structs := filterMap_start .struct (fun d _ hd => by cases d <;> cases hd; rfl)
      (fun d => by cases d <;> rfl) h.structs
    enums := filterMap_start .enum (fun d _ hd => by cases d <;> cases hd; rfl)
      (fun d => by cases d <;> rfl) h.enums
    aliases := filterMap_start .alias (fun d _ hd => by cases d <;> cases hd; rfl)
      (fun d => by cases d <;> rfl) h.aliases
    impls := filterMap_start .impl (fun d _ hd => by cases d <;> cases hd; rfl)
      (fun d => by cases d <;> rfl) h.impls
    functions := filterMap_start .function (fun d _ hd => by cases d <;> cases hd; rfl)
      (fun d => by cases d <;> rfl) h.functions }
  set := by
    refine .of_registry (registry_start p) (registry_start q) h.aliases
      (fun name => by rw [h.registry]) ?_
    refine (List.perm_ext_iff_of_nodup (nodup_start p) (nodup_start q)).2 fun name => ?_
    rw [mem_start, mem_start, Program.IsSeed, Program.IsSeed, h.enums, h.structs]

end ClosureState

namespace Program

open ClosureState

/-- The closures of interleaved programs are interleaved and have the same outcome. -/
theorem Interleaves.copyClosure {p q : Program} (h : p.Interleaves q) (cap : Nat) :
    (p.copyClosure cap).value.1.Interleaves (q.copyClosure cap).value.1 ∧
      (p.copyClosure cap).value.2 = (q.copyClosure cap).value.2 := by
  obtain ⟨hstate, houtcome⟩ := (start_interleaves h).settle cap 0
  exact ⟨hstate.decls, houtcome⟩

/-! ## What is read kind by kind -/

/-- Interleaved programs have the same cycles of values. -/
theorem Interleaves.valueCycles {p q : Program} (h : p.Interleaves q) :
    p.valueCycles = q.valueCycles := by
  have hplace : p.structPlace? = q.structPlace? := by
    funext name
    rw [structPlace?, structPlace?, h.structs]
  have hgraph : p.valueGraph = q.valueGraph := by
    rw [valueGraph, valueGraph, h.registry, h.structs, hplace]
  have hnames : p.namesAt? = q.namesAt? := by
    funext places
    rw [namesAt?, namesAt?, h.structs]
  rw [Program.valueCycles, Program.valueCycles, valueCycles?, valueCycles?, hgraph, hnames]

/-- Interleaved programs have the same suggestions. -/
theorem Interleaves.suggestions {p q : Program} (h : p.Interleaves q) :
    p.suggestions = q.suggestions := by
  rw [Program.suggestions, Program.suggestions, h.registry, h.copySet, h.bodies]

/-- Interleaved programs have the same emitted source. -/
theorem Interleaves.emit {p q : Program} (h : p.Interleaves q) (r : Registry)
    (header : Option String) : p.emit r header = q.emit r header := by
  rw [Program.emit, Program.emit, emitItems, emitItems, h.copySet, h.structs, h.enums, h.aliases,
    h.impls, h.functions]

/-! ## The result -/

/-- Interleaved programs have the same findings, and the annotated programs are interleaved. -/
theorem Interleaves.findings {p q : Program} (h : p.Interleaves q) (cap : Nat) :
    let a := (p.findings cap).value
    let b := (q.findings cap).value
    a.program.Interleaves b.program ∧ a.warnings = b.warnings ∧ a.suggestions = b.suggestions ∧
      a.outcome = b.outcome := by
  obtain ⟨hp, houtcome⟩ := h.copyClosure cap
  refine ⟨hp, ?_, congrArg Traced.value hp.suggestions, houtcome⟩
  change (p.copyClosure cap).value.2.warning?.toList ++
      (p.copyClosure cap).value.1.valueCycles.map Warning.valueCycle =
    (q.copyClosure cap).value.2.warning?.toList ++
      (q.copyClosure cap).value.1.valueCycles.map Warning.valueCycle
  rw [houtcome, hp.valueCycles]

/-- Without `strict` only emission can fail. -/
theorem compile_value {options : Options} (hstrict : options.strict = false) (p : Program) :
    (p.compile options).value =
      let a := (p.resolve.value.findings options.maxIterations).value
      match (a.program.emit (.ofProgram a.program) options.header).value with
      | .error pending => .error (.pendingLiteral pending)
      | .ok source => .ok ⟨source, a.warnings, a.suggestions, a.outcome⟩ := by
  simp only [compile, analyze, resolved, hstrict, verdict_resolveWith_lenient, Traced.value_bind,
    Traced.value_pure]
  cases (Program.emit _ _ _).value <;> rfl

/-- **How declarations of different kinds alternate plays no part.** Where faults are no errors, two
programs with the same declarations of each kind in the same order have the same source, warnings,
suggestions and outcome of the closure, or the same error. -/
theorem compile_eq_of_interleaves {p q : Program} (h : p.Interleaves q) (options : Options)
    (hstrict : options.strict = false) : (p.compile options).value = (q.compile options).value := by
  obtain ⟨hprogram, hwarnings, hsuggestions, houtcome⟩ := h.resolve.findings options.maxIterations
  rw [compile_value hstrict, compile_value hstrict]
  simp only [hprogram.registry, hprogram.emit, hwarnings, hsuggestions, houtcome]

/-- A function, the aggregate it reads, and behind that the enum and the alias of its fields. -/
def usesFirst : Program :=
  let p := Expr.ofKind (.ident "p")
  { decls := [
      .function ⟨.zero, "heavier", [⟨"p", .aggregate "Pixel", false⟩], .aggregate "Weight",
        .ofStmts [.ret .zero (some (.ofKind (.field p "weight" none)))], true, none⟩,
      .struct ⟨.zero, "Pixel", [⟨"color", .enum "Color"⟩, ⟨"weight", .aggregate "Weight"⟩], []⟩,
      .enum ⟨.zero, "Color", [⟨"Red", .unit⟩, ⟨"Green", .unit⟩], []⟩,
      .alias ⟨.zero, "Weight", .f64⟩] }

/-- The same with every declaration before its use. -/
def usesLast : Program where
  decls := usesFirst.decls.reverse

/-- The pass that finds the aggregate duplicable comes first, whether its enum stands before it or
after it. -/
theorem usesFirst_compile :
    usesFirst.Interleaves usesLast ∧
      (usesFirst.compile {}).value = (usesLast.compile {}).value ∧
      (usesFirst.compile {}).value.toOption.map (·.outcome.iterations) = some 2 := by
  have h : usesFirst.Interleaves usesLast := ⟨rfl, rfl, rfl, rfl, rfl⟩
  exact ⟨h, compile_eq_of_interleaves h {} rfl, by decide +kernel⟩

end Program

end Oxidize
