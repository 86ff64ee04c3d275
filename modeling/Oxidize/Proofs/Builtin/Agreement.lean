import Oxidize.Proofs.Builtin.Choice
import Oxidize.Proofs.Emit.Countdown
import Oxidize.Proofs.Typing.SoundPlaces

/-!
# All passes mean the same builtin

Type resolution decides what a method call means, and the usage walk and rendering decide it anew,
each from its own scopes and its own reading of the receiver's type. They come to the same choice at
every method call of a resolved program.

For the namespace this is the agreement of the scopes (`Scopes.Agree`): the name of a receiver, on
which they may differ, is no namespace. For the builtin it is the type of the receiver. The usage
walk takes the one that type resolution has recorded (`Expr.walkedChoice?_resolve`). Rendering
expands that type once more, which changes nothing that matters as long as the declared types expand
within the bound on the depth of aliases (`Expr.renderedChoice?_eq`).
-/

namespace Oxidize

/-! ## One call -/

section
variable {r : Registry} {env : Env} {source : List Expr} {b : Bindings}

/-- The walk chooses no builtin for what is no method call. -/
theorem Expr.walkedChoice?_eq_none {v : Expr}
    (h : ∀ object method ns args objectTy, v.kind ≠ .methodCall object method ns args objectTy) :
    v.walkedChoice? b = none := by
  unfold Expr.walkedChoice?
  split
  · next hk => exact absurd hk (h _ _ _ _ _)
  · rfl

/-- The usage walk takes a resolved call for what type resolution took the call for. -/
theorem Expr.walkedChoice?_resolve (h : SameLocals env.isLocal b.isLocal) (e : Expr)
    (expected : Option Ty) :
    (e.resolve r env expected).value.walkedChoice? b = e.resolvedChoice? r env := by
  obtain ⟨span, kind, ty⟩ := e
  simp only [Expr.resolve, Traced.value_bind, Traced.value_pure]
  cases kind with
  | methodCall object method ns args objectTy =>
    cases hc : calledEnum? r env ns object with
    | some name =>
      rw [ExprKind.resolve_onEnum hc]
      simp only [Traced.value_bind, Traced.value_pure, Expr.walkedChoice?, Expr.resolvedChoice?, hc]
    | none =>
      cases hns : namespaceOf? ns object env.isLocal with
      | some n =>
        have hns' : namespaceOf? (some n.ident) object b.isLocal = some n :=
          Namespace.ofIdent?_ident n
        rw [ExprKind.resolve_onNamespace hc hns]
        simp only [Traced.value_bind, Traced.value_pure, Expr.walkedChoice?, Expr.resolvedChoice?,
          hc, hns, hns']
        rfl
      | none =>
        rw [namespaceOf?_congr h] at hns
        rw [ExprKind.resolve_onValue hc (by rw [namespaceOf?_congr h, hns])]
        simp only [Traced.value_bind, Traced.value_pure, Expr.walkedChoice?, Expr.resolvedChoice?,
          hc, namespaceOf?_congr h, namespaceOf?_resolve, hns]
        rfl
  | _ =>
    refine Expr.walkedChoice?_eq_none fun object method ns args objectTy hk => ?_
    obtain ⟨_, _, _, _, hkind, -⟩ := ExprKind.methodCall_of_resolve r env hk
    cases hkind

/-- A resolved method call on a value records the type of its object. -/
theorem Expr.ResolvedIn.objectTy {v object : Expr} {method : String} {ns : Option String}
    {args : List Expr} {objectTy : Option Ty} (h : v.ResolvedIn r env source)
    (hv : v.kind = .methodCall object method ns args objectTy)
    (hns : namespaceOf? ns object env.isLocal = none) :
    objectTy = some (r.normalize object.tyOrVoid) := by
  obtain ⟨⟨span, kind, ty⟩, -, expected, rfl⟩ := h
  simp only [Expr.resolve, Traced.value_bind, Traced.value_pure] at hv
  obtain ⟨_, _, _, _, -, -, ⟨n, rfl⟩ | hty⟩ := ExprKind.methodCall_of_resolve r env hv
  · rw [namespaceOf?, Namespace.ofIdent?_ident] at hns
    cases hns
  · exact hty

/-- Rendering takes a sound call for what the usage walk takes it for: expanding the recorded type
of its receiver once more changes nothing. -/
theorem Expr.renderedChoice?_eq {r' : Registry} (haliases : r'.aliases = r.aliases)
    {b' : Bindings} (hlocals : SameLocals env.isLocal b.isLocal) (hag : b'.Agree b) {v : Expr}
    (hv : v.Sound r env source) : v.renderedChoice? r' b' = v.walkedChoice? b := by
  unfold Expr.renderedChoice? Expr.walkedChoice?
  split
  · next object method ns args objectTy hk =>
    rw [hag.isLocal]
    cases hns : namespaceOf? ns object b.isLocal with
    | some n => rfl
    | none =>
      rw [← namespaceOf?_congr hlocals] at hns
      obtain ⟨t, hty, ht⟩ := hv.receiver _ _ _ _ _ hk hns
      have hobject : objectTy = some (r.normalize t) := by
        rw [hv.resolved.objectTy hk hns, Expr.tyOrVoid, hty]
        rfl
      subst hobject
      exact congrArg (fun d => some (BuiltinChoice.mk none d))
        (Dispatch.onValue?_normalize haliases ht method)
  · rfl

end

/-! ## All calls -/

/-- Every pass takes the method call at a place for the same builtin and acts accordingly: type
resolution on any expression that it made the call of, the usage walk, and rendering under any
registry with the same aliases. -/
structure Place.Means (r : Registry) (pl : Place) (c : BuiltinChoice) : Prop where
  resolved : ∀ (e : Expr) (expected : Option Ty),
    (e.resolve r pl.scopes.typed expected).value = pl.node →
      e.resolvedChoice? r pl.scopes.typed = some c ∧
        e.kind.resolve r pl.scopes.typed e.span expected = e.resolveBy r pl.scopes.typed c
  walked : pl.node.walkedChoice? pl.scopes.walked = some c ∧
    ∀ registry pos, pl.node.usage registry pl.scopes.walked pos =
      pl.node.usageBy registry pl.scopes.walked c
  rendered : ∀ cx : FnContext, cx.registry.aliases = r.aliases →
    pl.node.renderedChoice? cx.registry pl.scopes.emitted = some c ∧
      (∀ pos, pl.node.render cx pl.scopes.emitted pos = pl.node.renderBy cx pl.scopes.emitted c) ∧
      isStatementBuiltin cx pl.scopes.emitted pl.node = c.dispatch.any (·.rule.isStatement)

/-- At a sound place of a method call there is a builtin choice that all passes share. -/
theorem Place.exists_means {r : Registry} {source : List Expr} {pl : Place}
    (hag : pl.scopes.Agree) (hsound : pl.node.Sound r pl.scopes.typed source)
    (hcall : pl.node.isMethodCall = true) :
    ∃ c, pl.Means r c := by
  obtain ⟨c, hc⟩ : ∃ c, pl.node.walkedChoice? pl.scopes.walked = some c := by
    unfold Expr.isMethodCall at hcall
    unfold Expr.walkedChoice?
    cases hk : pl.node.kind with
    | methodCall => exact ⟨_, rfl⟩
    | _ => simp [hk] at hcall
  refine ⟨c, fun e expected he => ?_, ⟨hc, Expr.usage_eq_usageBy hc⟩, fun cx haliases => ?_⟩
  · have hresolved : e.resolvedChoice? r pl.scopes.typed = some c := by
      rw [← e.walkedChoice?_resolve hag.locals expected, he, hc]
    exact ⟨hresolved, Expr.resolve_eq_resolveBy hresolved expected⟩
  · have hrendered := (Expr.renderedChoice?_eq haliases hag.locals hag.bindings hsound).trans hc
    exact ⟨hrendered, Expr.render_eq_renderBy hrendered, Expr.isStatementBuiltin_eq hrendered⟩

/-- The reads that emission writes are of variables at the places, in order. -/
theorem FunctionDecl.reads_sublist_places {r : Registry} {copy : CopySet} {indent : Nat}
    {f : FunctionDecl} {st : Emission} (h : f.emit r copy indent = .ok () st)
    (registry : Registry) (owner : Option String) :
    (st.reads.map (·.id)).Sublist ((f.places registry owner).filterMap Place.emitted?) := by
  obtain ⟨-, new, hnew, hsub, -, -⟩ := emit_appends h False False.elim
  obtain rfl : st.reads = new := by simpa using hnew
  have hids : (st.reads.map (·.id)).Sublist (accessedIn (f.usageEvents copy.registry)) := by
    have := (hsub.map (·.1)).trans (readsIn_sublist_accessedIn _)
    rwa [List.map_map] at this
  have hplaces : (f.places registry owner).filterMap Place.emitted? =
      (f.places registry owner).filterMap Place.walked? := by
    refine List.filterMap_congr fun pl hpl => ?_
    have hag := (f.places_visits registry owner none).places pl hpl
    rw [Place.emitted?, Place.walked?, Expr.boundId?, Expr.boundId?,
      funext hag.bindings.lookup]
  rw [hplaces, ← f.accessedIn_usageEvents registry owner copy.registry]
  exact hids

/-- In a program whose declared types expand within the bound on the depth of aliases, all passes
dispatch builtins the same way. At every place of a resolved function stands what one expression of
the function was resolved to, the scopes of the passes agree on which names but the receiver's are
local, and a method call means the same builtin to all of them.

The places are all there are: every method call of the function stands at one, save those inside an
expression that no pass looks at. And the scopes are those of the passes: the variables that the
walk comes to are, one by one, what the names at the places mean in its scopes, and so are the
variables that emission reads. -/
theorem Program.resolve_means (p : Program) (h : p.TypesExpand) :
    let r := Registry.ofProgram p
    p.resolve.value.ownedBodies =
        p.ownedBodies.map (fun owned => (owned.1, (owned.2.resolve r owned.1).value)) ∧
      ∀ owned ∈ p.ownedBodies,
        let f := (owned.2.resolve r owned.1).value
        let places := f.places r owned.1
        (∀ pl ∈ places,
          pl.node.ResolvedIn r pl.scopes.typed owned.2.nodes ∧
          (∀ name, name ≠ receiverName →
            pl.scopes.typed.isLocal name = pl.scopes.walked.isLocal name ∧
              pl.scopes.walked.isLocal name = pl.scopes.emitted.isLocal name) ∧
          (pl.node.isMethodCall = true → ∃ c, pl.Means r c)) ∧
        CallsAmong (places.map Place.node) f.nodes ∧
        (∀ registry, accessedIn (f.usageEvents registry) = places.filterMap Place.walked?) ∧
        ∀ r' copy indent st, f.emit r' copy indent = .ok () st →
          (st.reads.map (·.id)).Sublist (places.filterMap Place.emitted?) := by
  intro r
  refine ⟨p.ownedBodies_resolve, fun owned howned => ?_⟩
  obtain ⟨owner, f⟩ := owned
  have hf : f ∈ p.bodies := mem_bodies_of_owned howned
  have hsound := f.places_sound h.registry owner (h.writtenTys hf)
  have hvisits := (f.resolve r owner).value.places_visits r owner none
  refine ⟨fun pl hpl => ⟨(hsound pl hpl).resolved, fun name hname => ⟨?_, ?_⟩,
      fun hcall => Place.exists_means (hvisits.places pl hpl) (hsound pl hpl) hcall⟩,
    hvisits.calls, fun registry => FunctionDecl.accessedIn_usageEvents r owner _ registry,
    fun r' copy indent st hemit => FunctionDecl.reads_sublist_places hemit r owner⟩
  · exact (hvisits.places pl hpl).locals name hname
  · exact (congrFun (hvisits.places pl hpl).bindings.isLocal name).symm

/-- A method with a parameter that hides a namespace and is asked in a chain of conditionals, and a
function that uses the namespace. The sequences stand behind two aliases. -/
def Program.hiddenNamespace : Program :=
  let call := fun object method args => Expr.ofKind (.methodCall object method none args none)
  let math := Expr.ofKind (.ident "Math")
  let x := Expr.ofKind (.ident "x")
  let log := Stmt.expr (call (.ofKind (.ident "console")) "log" [x])
  let chained := Stmt.ifElse .zero (call math "includes" [x]) (.ofStmts [log]) none
  let items := Expr.ofKind (.field (.ofKind (.ident "this")) "items" none)
  { decls := [
      .alias ⟨.zero, "Items", .aggregate "Row"⟩,
      .alias ⟨.zero, "Row", .seq .f64⟩,
      .struct ⟨.zero, "Bag", [⟨"items", .aggregate "Items"⟩], []⟩,
      .impl ⟨.zero, "Bag", [⟨.zero, "fill",
        [⟨"Math", .aggregate "Items", false⟩, ⟨"x", .f64, false⟩], .void, .ofStmts [
          .ifElse .zero (call math "includes" [x]) (.ofStmts []) (some (.ofStmts [chained])),
          .switch .zero x [⟨.zero, some x, [.breakLoop .zero], false⟩],
          .expr (call items "push" [x])], true, some .byMut⟩]⟩,
      .function ⟨.zero, "size", [⟨"x", .f64, false⟩], .f64,
        .ofStmts [.ret .zero (some (call math "abs" [x]))], true, none⟩] }

/-- All passes take the hidden name for a sequence in the method and for the namespace in the
function. -/
theorem Program.hiddenNamespace_means :
    let p := hiddenNamespace
    let r := Registry.ofProgram p
    let places := p.ownedBodies.flatMap fun owned =>
      (owned.2.resolve r owned.1).value.places r owned.1
    p.TypesExpand ∧ (∀ pl ∈ places, pl.node.isMethodCall = true → ∃ c, pl.Means r c) ∧
      (places.filterMap fun pl => (pl.node.walkedChoice? pl.scopes.walked).map fun c =>
        (c.ns, c.dispatch.map (·.table))) =
        [(none, some .sequence), (none, some .sequence), (some .console, some (.ns .console)),
          (none, some .sequence), (some .math, some (.ns .math))] := by
  intro p r places
  have hexpand : p.TypesExpand := by decide +kernel
  refine ⟨hexpand, fun pl hpl => ?_, by decide +kernel⟩
  obtain ⟨owned, howned, hpl⟩ := List.mem_flatMap.1 hpl
  exact (((resolve_means p hexpand).2 owned howned).1 pl hpl).2.2

end Oxidize
