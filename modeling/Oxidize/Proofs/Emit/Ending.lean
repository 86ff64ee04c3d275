import Oxidize.Proofs.Duplicable.LeastClosure
import Oxidize.Proofs.Duplicable.OwningParts
import Oxidize.Proofs.Emit.PendingLiterals

/-!
# Where emission ends

Emission goes down the bodies of a program, which are finite. It also goes down types, and it expands
the aliases in them anew at every layer: it checks which variables, places and elements can be read
repeatedly, and it converts a value to the type of the place that the value flows into. Where no
alias is a part of itself, each of these checks and conversions ends within a number of layers that
the declarations give (`Registry.ChecksEnd`), so emission ends too, with an error exactly if it comes
to a pending literal (`Program.emit_ends`).

Where an alias is a part of itself, a program need not hold a pending literal to have no source. The
usage analysis checks the types of all variables of a function beforehand, and the check of a
variable whose type leads back to itself through tuples has no answer: `Program.endlessParameter` has
such a parameter.
-/

namespace Oxidize

/-! ## Conversions -/

section
variable {r : Registry} {e : Expr} {actual : Option Ty} {code : String}

/-- A layer of a conversion depends on the layers below only where the type is an optional. -/
theorem coerceWithin_succ_congr {n m : Nat} {t : Ty}
    (h : ∀ inner, r.normalize t = .optional inner →
      coerceWithin r e actual code m inner = coerceWithin r e actual code n inner) :
    coerceWithin r e actual code (m + 1) t = coerceWithin r e actual code (n + 1) t := by
  rw [coerceWithin, coerceWithin]
  cases ht : r.normalize t with
  | prim p => cases p <;> rfl
  | optional inner =>
    dsimp only
    rw [h inner ht]
  | _ => rfl

/-- What an optional holds has a layer less than the type that expands to it. -/
theorem Ty.SettlesWithin.of_normalize_optional {n : Nat} {t inner : Ty} (h : t.SettlesWithin r n)
    (ht : r.normalize t = .optional inner) : ∃ k, n = k + 1 ∧ inner.SettlesWithin r k := by
  have hnorm := Registry.normalizeWithin_settlesWithin (Registry.maxAliasDepth + 1) h
  rw [← Registry.normalize, ht] at hnorm
  cases hnorm with
  | optional hinner => exact ⟨_, rfl, hinner⟩

/-- A conversion does not depend on the number of layers once this exceeds the depth of the parts of
the type. -/
theorem coerceWithin_of_settlesWithin {n m : Nat} {t : Ty} (h : t.SettlesWithin r n) (hm : n < m) :
    coerceWithin r e actual code m t = coerceWithin r e actual code (n + 1) t := by
  induction n generalizing m t with
  | zero =>
    obtain ⟨m, rfl⟩ := Nat.exists_eq_add_of_lt hm
    refine coerceWithin_succ_congr fun inner hinner => ?_
    obtain ⟨k, hk, -⟩ := h.of_normalize_optional hinner
    omega
  | succ n ih =>
    obtain ⟨m, rfl⟩ := Nat.exists_eq_add_of_lt hm
    refine coerceWithin_succ_congr fun inner hinner => ?_
    obtain ⟨k, hk, hsettles⟩ := h.of_normalize_optional hinner
    obtain rfl : n = k := by omega
    exact ih hsettles (by omega)

end

/-! ## Checks -/

/-- Each check of a type and each conversion to a type ends, within as many layers as the declared
aliases and the type can have together. -/
structure Registry.ChecksEnd (r : Registry) (copy : CopySet) : Prop where
  checked : ∀ (t : Ty) (n : Nat), r.expansionBound t ≤ n →
    copy.isDuplicableWithin n t = some (copy.isDuplicable t)
  converted : ∀ (e : Expr) (code : String) (t : Ty) (n : Nat), r.expansionBound t ≤ n →
    coerceWithin r e (e.ty.map r.normalize) code n t = coerce r e code (some t)

/-- If no alias is a part of itself, all checks and conversions end. -/
theorem Registry.Grounded.checksEnd {r : Registry} (hr : r.Grounded) (names : List String) :
    r.ChecksEnd ⟨names, some r⟩ where
  checked t n hn := by
    have hanswer := CopySet.isDuplicableWithin_isSome names (hr.settlesWithin t)
    exact CopySet.isDuplicableWithin_eq_isDuplicable hanswer (Nat.le_add_right _ _) hn
  converted e code t n hn := by
    have hsettles := hr.settlesWithin t
    have hlimit : r.expansionBound t ≤ r.expansionBound t + callLimit := Nat.le_add_right _ _
    rw [coerce, coerceWithin_of_settlesWithin hsettles hn, coerceWithin_of_settlesWithin hsettles hlimit]

/-- Emission goes by the tags of the program and by the declarations that it is given. -/
theorem CopySet.ofProgram_eq (p : Program) (r : Registry) :
    CopySet.ofProgram p r = ⟨(CopySet.ofProgram p r).names, some r⟩ := by
  have hregistry : (CopySet.ofProgram p r).registry = some r := registry_foldl_insert _ _
  rw [← hregistry]

/-! ## Programs -/

namespace Program

/-- **Where no alias is a part of itself, emission ends, and it fails exactly on pending literals.**
The error is that of the first such literal among the expressions that are rendered, and a program
whose bodies hold none has a source. Where aliases lead back to themselves through tuples, the check
of every variable of such a type, which the emission of its function asks for, goes on for ever. -/
theorem emit_ends (p : Program) (r : Registry) (header : Option String) :
    let copy := CopySet.ofProgram p r
    (r.Grounded →
      r.ChecksEnd copy ∧
      (∀ err, (p.emit r header).value = .error err ↔
        ∃ before e after, p.rendered r = before ++ e :: after ∧
          (∀ e' ∈ before, e'.isPending = false) ∧ e.isPending = true ∧ err = ⟨e.span⟩) ∧
      ((∃ err, (p.emit r header).value = .error err) ↔ ∃ e ∈ p.rendered r, e.isPending = true) ∧
      ((∀ f ∈ p.bodies, ∀ e ∈ f.nodes, e.isPending = false) →
        ∃ source, (p.emit r header).value = .ok source)) ∧
    ∀ names, r.Recurs names false → ∀ f ∈ p.bodies, ∀ u ∈ (f.usage copy).bindings,
      u.ty.LeadsTo names false → ∀ n, copy.isDuplicableWithin n u.ty = none := by
  intro copy
  have hcopy : copy = ⟨copy.names, some r⟩ := CopySet.ofProgram_eq p r
  refine ⟨fun hr => ⟨?_, p.emit_error_iff r header⟩, fun names hnames f _ u _ hu n => ?_⟩
  · rw [hcopy]
    exact hr.checksEnd copy.names
  · rw [hcopy]
    exact CopySet.isDuplicableWithin_eq_none copy.names hnames hu n

/-- A parameter of an alias that is a pair with itself. -/
def endlessParameter : Program where
  decls := [
    .alias ⟨.zero, "Chain", .tuple [.f64, .aggregate "Chain"]⟩,
    .function ⟨.zero, "f", [⟨"x", .aggregate "Chain", false⟩], .void, .ofStmts [], false, none⟩]

/-- The alias of the example leads to itself. -/
theorem endlessParameter_recurs : (Registry.ofProgram endlessParameter).Recurs (· = "Chain") false :=
  Registry.endlessChain_recurs

/-- There is no pending literal, and no number of layers answers the check of the parameter. -/
theorem endlessParameter_unanswered :
    let copy := CopySet.ofProgram endlessParameter (.ofProgram endlessParameter)
    (∀ f ∈ endlessParameter.bodies, ∀ e ∈ f.nodes, e.isPending = false) ∧
      ∃ f ∈ endlessParameter.bodies, ∃ u ∈ (f.usage copy).bindings,
        ∀ n, copy.isDuplicableWithin n u.ty = none := by
  intro copy
  refine ⟨by decide, _, .head _, _, .head _, fun n => ?_⟩
  exact CopySet.isDuplicableWithin_eq_none copy.names endlessParameter_recurs (.aggregate rfl) n

/-- A pending literal behind a parameter of an alias that contains itself, though not as a part. -/
def loneLiteral : Program where
  decls := Registry.harmlessCycles.aliases.map .alias ++ [
    .function ⟨.zero, "g", [⟨"x", .aggregate "Link", false⟩], .void, .ofStmts [
      .expr (.ofKind (.array [.ofKind (.ident "x"), ⟨⟨7, 2⟩, .aggregate .pending [], none⟩]))],
      false, none⟩]

/-- The check of the parameter is answered and the literal is reported. -/
theorem loneLiteral_emit_ends :
    Registry.harmlessCycles.Grounded ∧
      (∀ n, 4 ≤ n → (CopySet.ofProgram loneLiteral .harmlessCycles).isDuplicableWithin n
        (.aggregate "Link") = some true) ∧
      (loneLiteral.emit .harmlessCycles none).value = .error ⟨⟨7, 2⟩⟩ ∧
      (Registry.ofProgram endlessParameter).Recurs (· = "Chain") false ∧
      ∀ n, (CopySet.ofProgram endlessParameter (.ofProgram endlessParameter)).isDuplicableWithin n
        (.aggregate "Chain") = none := by
  have hr := Registry.harmlessCycles_grounded
  obtain ⟨hchecks, herror, -, -⟩ := (emit_ends loneLiteral .harmlessCycles none).1 hr
  have hlink : (CopySet.ofProgram loneLiteral .harmlessCycles).isDuplicable (.aggregate "Link") =
      true := by decide +kernel
  let ident : Expr := .ofKind (.ident "x")
  let literal : Expr := ⟨⟨7, 2⟩, .aggregate .pending [], none⟩
  have hrendered : loneLiteral.rendered .harmlessCycles =
      [.ofKind (.array [ident, literal]), ident] ++ literal :: [] := rfl
  refine ⟨hr, fun n hn => ?_, (herror _).2 ⟨_, literal, _, hrendered, ?_, rfl, rfl⟩,
    endlessParameter_recurs, fun n => ?_⟩
  · rw [hchecks.checked (.aggregate "Link") n hn, hlink]
  · decide
  · exact (emit_ends endlessParameter (.ofProgram endlessParameter) none).2 _ endlessParameter_recurs
      _ (.head _) _ (.head _) (.aggregate rfl) n

end Program

end Oxidize
