import Oxidize.Proofs.Builtin.Agreement
import Oxidize.Proofs.Emit.Layout
import Oxidize.Proofs.Emit.MutArguments

/-!
# Declarations that are emitted as mutable

A variable is written `mut` if it is marked so where it is declared or if it is changed where it is
visible, and otherwise not (`Program.emit_mutable`). The decision is taken by the usage analysis,
under the number of the variable, and used by emission, which numbers variables anew. The analysis
goes by the recorded type of a receiver and emission by that type expanded once more, so the types
have to expand within the bound on the depth of aliases for the two to agree on which calls change
their receiver.
-/

namespace Oxidize

open Emitting (line indented)

/-! ## Calls that change their receiver -/

section
variable {r : Registry} {env : Env} {source : List Expr}

/-- A resolved call without the tag of a namespace is a call on a value. -/
theorem Expr.ResolvedIn.onValue {v object : Expr} {method : String} {ns : Option String}
    {args : List Expr} {objectTy : Option Ty} (h : v.ResolvedIn r env source)
    (hv : v.kind = .methodCall object method ns args objectTy)
    (htag : ns.bind Namespace.ofIdent? = none) : namespaceOf? ns object env.isLocal = none := by
  obtain ⟨⟨span, kind, ty⟩, -, expected, rfl⟩ := h
  simp only [Expr.resolve, Traced.value_bind, Traced.value_pure] at hv
  obtain ⟨object₀, ns₀, args₀, objectTy₀, rfl, hc, -⟩ := ExprKind.methodCall_of_resolve r env hv
  cases hns : namespaceOf? ns₀ object₀ env.isLocal with
  | some n =>
    rw [ExprKind.resolve_onNamespace hc hns] at hv
    cases hv
    rw [Option.bind_some, Namespace.ofIdent?_ident] at htag
    cases htag
  | none =>
    rw [ExprKind.resolve_onValue hc hns] at hv
    cases hv
    rw [namespaceOf?_resolve, hns]

/-- Whether a method changes its receiver is told by the registry. -/
theorem methodMutates_eq (r : Registry) (recv : Option Ty) (method : String) :
    methodMutates (some r) recv method = r.mutates recv method := by
  unfold methodMutates Registry.mutates
  cases Dispatch.onValue? recv method with
  | some d => rfl
  | none =>
    cases recv with
    | none => rfl
    | some t =>
      simp only [Option.bind_some, Registry.methodOf?]
      cases t.nominalName? <;> rfl

/-- Expanding the type of a receiver once more does not change whether a method changes it. -/
theorem Registry.mutates_normalize {r' : Registry} (haliases : r'.aliases = r.aliases) {t : Ty}
    (ht : t.PartsExpand r) (method : String) :
    r'.mutates (some (r'.normalize (r.normalize t))) method =
      r'.mutates (some (r.normalize t)) method := by
  rw [Registry.mutates, Registry.mutates, Dispatch.onValue?_normalize haliases ht]
  simp only [Option.bind_some, Registry.methodOf?, Ty.nominalName?_normalize haliases ht]

/-- The walk and emission agree on the calls of a resolved function. -/
theorem Expr.Sound.judgedAlike {r' : Registry} (haliases : r'.aliases = r.aliases) {v : Expr}
    (hv : v.Sound r env source) : v.JudgedAlike r' := by
  intro object method ns args objectTy hk htag
  have hns := hv.resolved.onValue hk htag
  obtain ⟨t, hty, ht⟩ := hv.receiver _ _ _ _ _ hk hns
  have hobject : objectTy = some (r.normalize t) := by
    rw [hv.resolved.objectTy hk hns, Expr.tyOrVoid, hty]
    rfl
  subst hobject
  rw [methodMutates_eq]
  exact (Registry.mutates_normalize haliases ht method).symm

end

/-! ## Functions -/

namespace FunctionDecl

/-- The analysis asks for a mutable declaration exactly if the walk over the body changes the
variable. -/
theorem needsMut_usage {copy : CopySet} {f : FunctionDecl} {id : BindingId}
    (hid : id < (Stmt.usageList copy.registry f.signatureBindings f.body.stmts).value.next) :
    (f.usage copy).needsMut id =
      changedIn (Stmt.usageList copy.registry f.signatureBindings f.body.stmts).trace id := by
  have hlength : id < (f.usage copy).bindings.length := by
    rwa [Bindings.next, ← map_name_usage, List.length_map] at hid
  have hsig : changedIn (f.signatureVars.map fun v => .declare v.1 v.2 true) id = false := by
    simp [changedIn, UsageEvent.isWriteOf, UsageEvent.isMutationOf]
  have hevents : changedIn (f.usageEvents copy.registry) id =
      changedIn (Stmt.usageList copy.registry f.signatureBindings f.body.stmts).trace id := by
    rw [usageEvents, changedIn_append, hsig, Bool.false_or]
  rw [← hevents, Bool.eq_iff_iff, needsMut_usage_iff hlength, changedIn, List.any_eq_true]
  simp only [Bool.or_eq_true]

section
variable {registry r : Registry} {owner : Option String} {f : FunctionDecl} {copy : CopySet}

/-- The analysis decides on the variables of the body. -/
theorem decidesAs_body (hcopy : copy.registry = some r)
    (hj : JudgedAt r (Stmt.placesList registry (f.scopes registry owner) f.body.stmts)) :
    (f.context r copy).DecidesAs r f.signatureBindings.next
      (Stmt.declarationsList f.body.stmts) := by
  have hdecides := Stmt.usageList_decides f.body.stmts (f.scopes_agree registry owner)
    f.signatureBindings_walks.2 hj
  intro j d hd
  have hlt : f.signatureBindings.next + j <
      (Stmt.usageList copy.registry f.signatureBindings f.body.stmts).value.next := by
    rw [hcopy]
    refine hdecides.next ▸ Nat.add_lt_add_left ?_ _
    exact (List.getElem?_eq_some_iff.1 hd).1
  rw [context, needsMut_usage hlt, hcopy]
  exact hdecides.changed j d hd

/-- The analysis decides on the variables of the signature. -/
theorem needsMut_signature (hcopy : copy.registry = some r)
    (hj : JudgedAt r (Stmt.placesList registry (f.scopes registry owner) f.body.stmts)) {i : Nat}
    {name : String} (hi : (f.signatureVars.map (·.1))[i]? = some name) :
    (f.usage copy).needsMut i = f.changes r name ((f.signatureVars.map (·.1)).drop (i + 1)) := by
  have hlt : i < (Stmt.usageList copy.registry f.signatureBindings f.body.stmts).value.next := by
    refine Nat.lt_of_lt_of_le ?_ (Stmt.usageList_walks copy.registry f.body.stmts _).next_le
    rw [Bindings.next, f.signatureBindings_walks.1]
    exact (List.getElem?_eq_some_iff.1 hi).1
  rw [needsMut_usage hlt, hcopy]
  exact changedIn_signature hj hi

end

/-- The texts of the receiver and the parameters. A receiver that is taken by value is written `mut`
if the body changes it, and a parameter also if it is marked so; a variable of the signature is
hidden from the body by a later one of the same name. -/
def signatureTexts (r : Registry) (f : FunctionDecl) : List String :=
  (f.receiver.map fun
    | .byRef => "&self"
    | .byMut => "&mut self"
    | .byValue => mutText (f.changes r receiverName (f.params.map (·.name))) ++ "self").toList ++
    f.params.zipIdx.map fun (p, i) =>
      mutText (p.mutable || f.changes r p.name ((f.params.drop (i + 1)).map (·.name))) ++
        Name.value p.name ++ ": " ++ p.ty.text .loc

/-- The first line of a function. -/
def head (r : Registry) (f : FunctionDecl) : String :=
  (if f.isPublic && f.name != "main" then "pub " else "") ++ "fn " ++
    callText (Name.value f.name) (f.signatureTexts r) ++
    (if (r.normalize f.ret).isVoid then "" else " -> " ++ f.ret.text .ret) ++ " \x7b"

/-- If the report marks the parameters that the body changes, they are written as the signature
says. -/
theorem paramTexts_eq {r : Registry} {f : FunctionDecl} {report : UsageReport}
    (h : ∀ i name, (f.signatureVars.map (·.1))[i]? = some name →
      report.needsMut i = f.changes r name ((f.signatureVars.map (·.1)).drop (i + 1))) :
    f.paramTexts report = f.signatureTexts r := by
  have hcount : (f.receiver.map (receiverText report)).toList.length = f.receiverCount := by
    rw [receiverCount]
    cases f.receiver <;> rfl
  rw [paramTexts, hcount, signatureTexts]
  congr 1
  · cases hrecv : f.receiver with
    | none => rfl
    | some recv =>
      cases recv with
      | byRef | byMut => rfl
      | byValue =>
        have hself := h 0 receiverName (by simp [signatureVars, hrecv])
        have hlater : (f.signatureVars.map (·.1)).drop 1 = f.params.map (·.name) := by
          simp [signatureVars, hrecv]
        rw [hlater] at hself
        simp only [Option.map_some, receiverText, hself]
  · refine List.ext_getElem? fun i => ?_
    simp only [List.getElem?_map, List.getElem?_zipIdx, Option.map_map]
    cases hp : f.params[i]? with
    | none => rfl
    | some p =>
      have hparam := h (f.receiverCount + i) p.name (signatureNames_getElem? hp)
      rw [Nat.add_assoc, drop_signatureNames] at hparam
      simp only [Option.map_some, Function.comp_apply, paramText, hparam, Nat.zero_add]

/-- The first line of a function is its head, and each of the others is the line of its statement. -/
theorem emit_lines {registry r : Registry} {owner : Option String} {f : FunctionDecl}
    {copy : CopySet} {indent : Nat} {st : Emission} (hcopy : copy.registry = some r)
    (hj : JudgedAt r (Stmt.placesList registry (f.scopes registry owner) f.body.stmts))
    (h : f.emit r copy indent = .ok () st) :
    ∃ lines, st.lines = (indentation indent ++ f.head r) :: lines ∧
      List.Forall₂ (IsLineOf r) (Stmt.layoutList f.body.stmts ++ [none]) lines := by
  obtain ⟨_, st₁, hhead, hrest⟩ := Emitting.exists_of_run_bind h
  cases hhead
  have hlays : Emitting.LaysOut (f.context r copy) r (Stmt.declarationsList f.body.stmts)
      (Stmt.layoutList f.body.stmts ++ [none]) (do
        indented (Stmt.emitBody (f.context r copy) f.body.stmts)
        line "\x7d") := .bind_line (.indented (Stmt.emitBody_laysOut f.body.stmts))
  obtain ⟨-, lines, hlines, hlayout⟩ := hlays _ _ _ hrest (decidesAs_body hcopy hj)
  have htexts : f.paramTexts (f.usage copy) = f.signatureTexts r :=
    paramTexts_eq fun _ _ => needsMut_signature hcopy hj
  refine ⟨lines, ?_, hlayout⟩
  rw [hlines, head, ← htexts]
  rfl

end FunctionDecl

/-! ## The main statement -/

/-- **A variable is emitted as mutable exactly if it is marked so or changed.** In the emission of a
function of a resolved program whose declared types expand within the bound on the depth of aliases,
the receiver and the parameters read as `FunctionDecl.signatureTexts` says, and each line of the body
that declares a variable reads as `Declaration.text` says: with `mut` if the variable is marked so
where it is declared or if it is changed where it is visible, and without `mut` otherwise. Each
variable that the body declares has one line. -/
theorem Program.emit_mutable (p : Program) (hp : p.TypesExpand) {owner : Option String}
    {f : FunctionDecl} (hf : (owner, f) ∈ p.resolve.value.ownedBodies) {r : Registry}
    {copy : CopySet} (haliases : r.aliases = (Registry.ofProgram p).aliases)
    (hcopy : copy.registry = some r) {indent : Nat} {st : Emission}
    (h : f.emit r copy indent = .ok () st) :
    (∃ lines, st.lines = (indentation indent ++ f.head r) :: lines ∧
      List.Forall₂ (IsLineOf r) (Stmt.layoutList f.body.stmts ++ [none]) lines) ∧
    (declaredOn (Stmt.layoutList f.body.stmts)).Perm (Stmt.declarationsList f.body.stmts) := by
  rw [p.ownedBodies_resolve] at hf
  obtain ⟨⟨owner, f₀⟩, howned, hf⟩ := List.mem_map.1 hf
  cases hf
  have hsound := f₀.places_sound hp.registry owner (hp.writtenTys (mem_bodies_of_owned howned))
  exact ⟨FunctionDecl.emit_lines hcopy (fun pl hpl => (hsound pl hpl).judgedAlike haliases) h,
    Stmt.layoutList_perm _⟩

/-- A method that changes its receiver, a parameter whose type stands behind an alias, a variable of a
loop and two of several variables with the same name. -/
def FunctionDecl.changesSome : FunctionDecl :=
  let this := Expr.ofKind (.ident receiverName)
  let n := Expr.ofKind (.ident "n")
  let x := Expr.ofKind (.ident "x")
  let log := Expr.ofKind (.ident "log")
  let one := Expr.ofKind (.literal (.number ⟨0x3ff0000000000000⟩))
  let counter := Expr.ofKind (.aggregate (.named "Counter") [⟨"n", n⟩])
  let bump := Expr.ofKind (.methodCall (.ofKind (.ident "c")) "bump" none [] none)
  ⟨.zero, "run", [⟨"log", .aggregate "Log", false⟩, ⟨"n", .f64, false⟩], .void, .ofStmts [
    .expr (.ofKind (.methodCall log "push" none [n] none)),
    .letVar .zero "n" (some .f64) false (some n),
    .forEach .zero "x" log (.ofStmts [
      .assign .zero x n,
      .letVar .zero "n" none false (some x)]),
    .switch .zero n [
      ⟨.zero, none, [.letVar .zero "c" none false (some counter), .expr bump, .breakLoop .zero],
        false⟩,
      ⟨.zero, some one, [.letVar .zero "c" none false (some counter), .breakLoop .zero], false⟩],
    .assign .zero (.ofKind (.field this "n" none)) n,
    .assign .zero n one], false, some .byValue⟩

/-- A method that changes a counter in place. -/
def FunctionDecl.bumps : FunctionDecl :=
  let this := Expr.ofKind (.ident receiverName)
  let one := Expr.ofKind (.literal (.number ⟨0x3ff0000000000000⟩))
  ⟨.zero, "bump", [], .void, .ofStmts [.assign .zero (.ofKind (.field this "n" none)) one], false,
    some .byMut⟩

/-- The program of these methods. -/
def Program.changesSome : Program where
  decls := [
    .alias ⟨.zero, "Log", .seq .f64⟩,
    .struct ⟨.zero, "Counter", [⟨"n", .f64⟩], []⟩,
    .impl ⟨.zero, "Counter", [.bumps, .changesSome]⟩]

/-- The parameter `n` is not changed, as the variable that hides it is, and of the two variables `c`
only the one in the default arm is, which comes last. -/
theorem Program.changesSome_mutable :
    let r := Registry.ofProgram changesSome
    let f := (FunctionDecl.changesSome.resolve r (some "Counter")).value
    let emitted := [
      "fn run(mut self, mut log: Log, n: f64) \x7b",
      "    log.push(n);",
      "    let mut n: f64 = n;",
      "    for mut x in log.iter().copied() \x7b",
      "        x = n;",
      "        let n = x;",
      "    \x7d",
      "    match n \x7b",
      "        1.0 => \x7b",
      "            let c = Counter \x7b n: n \x7d;",
      "        \x7d",
      "        _ => \x7b",
      "            let mut c = Counter \x7b n: n \x7d;",
      "            c.bump();",
      "        \x7d",
      "    \x7d",
      "    self.n = n;",
      "    n = 1;",
      "\x7d"]
    changesSome.TypesExpand ∧ (some "Counter", f) ∈ changesSome.resolve.value.ownedBodies ∧
      ∃ st, f.emit r (.ofProgram changesSome r) 0 = .ok () st ∧ st.lines = emitted ∧
        (∃ lines, st.lines = (indentation 0 ++ f.head r) :: lines ∧
          List.Forall₂ (IsLineOf r) (Stmt.layoutList f.body.stmts ++ [none]) lines) ∧
        (declaredOn (Stmt.layoutList f.body.stmts)).Perm (Stmt.declarationsList f.body.stmts) := by
  intro r f emitted
  have hp : changesSome.TypesExpand := by decide +kernel
  have hf : (some "Counter", f) ∈ changesSome.resolve.value.ownedBodies := by
    rw [changesSome.ownedBodies_resolve]
    exact .tail _ (.head _)
  have hrun : (EStateM.Result.casesOn (motive := fun _ => Bool)
      (f.emit r (.ofProgram changesSome r) 0) (fun _ st => decide (st.lines = emitted))
      fun _ _ => false) = true := by decide +kernel
  refine ⟨hp, hf, ?_⟩
  cases hst : f.emit r (.ofProgram changesSome r) 0 with
  | ok _ st =>
    rw [hst] at hrun
    exact ⟨st, rfl, of_decide_eq_true hrun, emit_mutable changesSome hp hf rfl rfl hst⟩
  | error _ st =>
    rw [hst] at hrun
    cases hrun

/-- A method that changes its receiver is called where nothing is evaluated: on the object of a call
that is tagged with a namespace. -/
def Program.changesUnevaluated : Program :=
  let one := Expr.ofKind (.literal (.number ⟨0x3ff0000000000000⟩))
  let bump := Expr.ofKind (.methodCall (.ofKind (.ident "c")) "bump" none [] none)
  { decls := [
      .struct ⟨.zero, "Counter", [⟨"n", .f64⟩], []⟩,
      .impl ⟨.zero, "Counter", [.bumps]⟩,
      .function ⟨.zero, "main", [], .void, .ofStmts [
        .letVar .zero "c" (some (.aggregate "Counter")) false
          (some (.ofKind (.aggregate (.named "Counter") [⟨"n", one⟩]))),
        .expr (.ofKind (.methodCall bump "floor" (some "Math") [one] none))], false, none⟩] }

/-- The body of `main` contains a call on `c` of a method that takes its receiver by a mutable
reference, and `c` is not emitted as mutable. -/
theorem Program.changesUnevaluated_compile :
    (changesUnevaluated.resolve.value.functions.flatMap FunctionDecl.nodes).any (fun n =>
        match n.kind with
        | .methodCall object "bump" none _ _ => object.root? == some "c"
        | _ => false) = true ∧
      ((Registry.ofProgram changesUnevaluated).method? "Counter" "bump").map (·.receiver) =
        some (some .byMut) ∧
      (changesUnevaluated.compile {}).value.toOption.map (·.source) =
        some ("#[derive(Debug, Clone, PartialEq, Copy)]\npub struct Counter \x7b\n    pub n: f64,\n" ++
          "\x7d\n\nimpl Counter \x7b\n    fn bump(&mut self) \x7b\n        self.n = 1;\n    \x7d\n" ++
          "\x7d\n\nfn main() \x7b\n    let c: Counter = Counter \x7b n: 1 \x7d;\n" ++
          "    (1 as f64).floor();\n\x7d\n") := by
  decide +kernel

end Oxidize
