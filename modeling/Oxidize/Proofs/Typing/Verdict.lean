import Oxidize.Compile
import Oxidize.Proofs.Typing.Visits

/-!
# The verdict of strict resolution

A strict resolution annotates a program as a lenient one does, and refuses it if a visit finds a
fault. `Visit.Faulty` says which visits do: those of a name that is neither a variable nor a
function, of a field that an aggregate lacks, and of a method of a value that two tables claim.
`Program.resolveWith_error` says that the fault of the first such visit is the error.
-/

namespace Oxidize

open Resolving

/-! ## Faulty visits -/

/-- The visit finds the fault, at the expression that it comes to. What the expression is and the
type of its object are those that the visit leaves. -/
inductive Visit.Faulty (r : Registry) (v : Visit) : Fault → Prop
  | unbound {name : String} (kind : (v.output r).kind = .ident name)
      (isLocal : v.env.isLocal name = false) (function : r.function? name = none) :
      v.Faulty r ⟨.unbound name, v.input.span⟩
  | missingField {object : Expr} {member name : String} {objectTy : Option Ty}
      (kind : (v.output r).kind = .field object member objectTy)
      (constant : namespaceConstant? object member v.env.isLocal = none)
      (aggregate : (r.normalize object.tyOrVoid).stripRefs = .aggregate name)
      (field : r.fieldType? name member = none) :
      v.Faulty r ⟨.missingField name member, v.input.span⟩
  | ambiguousMethod {object : Expr} {method : String} {ns : Option String} {args : List Expr}
      {objectTy : Option Ty} {d : Dispatch}
      (kind : (v.output r).kind = .methodCall object method ns args objectTy)
      (value : namespaceOf? ns object v.env.isLocal = none)
      (dispatch : Dispatch.onValue? (some (r.normalize object.tyOrVoid)) method = some d)
      (ambiguous : d.ambiguous = true) :
      v.Faulty r ⟨.ambiguousMethod method, v.input.span⟩

section
variable {r : Registry} {v : Visit} {f : Fault}

/-- An access is at fault exactly if its object is an aggregate without such a field. -/
theorem fieldFault?_eq_some_iff {obj : Ty} {member : String} {span : Span} :
    fieldFault? r obj member span = some f ↔
      ∃ name, obj.stripRefs = .aggregate name ∧ r.fieldType? name member = none ∧
        f = ⟨.missingField name member, span⟩ := by
  unfold fieldFault?
  constructor
  · intro h
    split at h
    · next name hname =>
      split at h
      · next hfield =>
        cases h
        exact ⟨name, hname, Option.isNone_iff_eq_none.1 hfield, rfl⟩
      · cases h
    · cases h
  · rintro ⟨name, hname, hfield, rfl⟩
    simp only [hname, hfield, Option.isNone_none, if_true]

/-- A dispatch is at fault exactly if it is ambiguous. -/
theorem dispatchFault?_eq_some_iff {recv : Ty} {method : String} {span : Span} :
    dispatchFault? recv method span = some f ↔
      ∃ d, Dispatch.onValue? (some recv) method = some d ∧ d.ambiguous = true ∧
        f = ⟨.ambiguousMethod method, span⟩ := by
  unfold dispatchFault?
  cases Dispatch.onValue? (some recv) method with
  | none => simp
  | some d =>
    rw [Option.any_some]
    constructor
    · intro h
      split at h
      · next hambiguous =>
        cases h
        exact ⟨d, rfl, hambiguous, rfl⟩
      · cases h
    · rintro ⟨_, ⟨⟩, hambiguous, rfl⟩
      rw [if_pos hambiguous]

/-- The fault that is computed for a visit is the one that it finds. -/
theorem Visit.fault?_eq_some_iff : v.fault? r = some f ↔ v.Faulty r f := by
  unfold Visit.fault?
  constructor
  · intro h
    unfold ExprKind.fault? at h
    split at h
    · next name hkind =>
      split at h
      · next hunbound =>
        cases h
        rw [Bool.and_eq_true_iff, Bool.not_eq_true', Option.isNone_iff_eq_none] at hunbound
        exact .unbound hkind hunbound.1 hunbound.2
      · cases h
    · next object member objectTy hkind =>
      split at h
      · cases h
      · next hconstant =>
        obtain ⟨name, hname, hfield, rfl⟩ := fieldFault?_eq_some_iff.1 h
        exact .missingField hkind (Option.not_isSome_iff_eq_none.1 hconstant) hname hfield
    · next object method ns args objectTy hkind =>
      split at h
      · cases h
      · next hvalue =>
        obtain ⟨d, hd, hambiguous, rfl⟩ := dispatchFault?_eq_some_iff.1 h
        exact .ambiguousMethod hkind (Option.not_isSome_iff_eq_none.1 hvalue) hd hambiguous
    · cases h
  · rintro (⟨hkind, hlocal, hfunction⟩ | ⟨hkind, hconstant, hname, hfield⟩ |
      ⟨hkind, hvalue, hd, hambiguous⟩)
    · simp only [hkind, ExprKind.fault?, hlocal, hfunction]
      rfl
    · simp only [hkind, ExprKind.fault?, hconstant, Option.isSome_none, Bool.false_eq_true, if_false]
      exact fieldFault?_eq_some_iff.2 ⟨_, hname, hfield, rfl⟩
    · simp only [hkind, ExprKind.fault?, hvalue, Option.isSome_none, Bool.false_eq_true, if_false]
      exact dispatchFault?_eq_some_iff.2 ⟨_, hd, hambiguous, rfl⟩

end

/-! ## The error that is kept -/

namespace Program

variable (p : Program)

/-- The error of a strict resolution is the fault of the first faulty visit. -/
theorem firstFault?_eq_some_iff {f : Fault} :
    p.firstFault? = some f ↔
      ∃ before v after, p.visits = before ++ v :: after ∧
        (∀ v' ∈ before, ∀ f', ¬v'.Faulty (.ofProgram p) f') ∧ v.Faulty (.ofProgram p) f := by
  rw [firstFault?_eq_head?, faults_resolve, List.head?_filterMap, List.findSome?_eq_some_iff]
  simp only [Visit.fault?_eq_some_iff, Option.eq_none_iff_forall_ne_some, ne_eq]
  constructor
  · rintro ⟨before, v, after, hvisits, hv, hbefore⟩
    exact ⟨before, v, after, hvisits, hbefore, hv⟩
  · rintro ⟨before, v, after, hvisits, hbefore, hv⟩
    exact ⟨before, v, after, hvisits, hv, hbefore⟩

/-- A strict resolution has an error if and only if some visit is faulty. -/
theorem isSome_firstFault?_iff :
    p.firstFault?.isSome = true ↔ ∃ v ∈ p.visits, ∃ f, v.Faulty (.ofProgram p) f := by
  rw [firstFault?_eq_head?, faults_resolve, List.head?_filterMap, List.findSome?_isSome_iff]
  simp only [Option.isSome_iff_exists, Visit.fault?_eq_some_iff]

/-- **Strictness only adds a verdict.** In either mode the program is left as lenient resolution
annotates it, with the same notes, and the pipeline goes by the error that is kept. A lenient
resolution keeps none. A strict one has an error if and only if some visit is faulty, and it is the
fault of the first such visit. -/
theorem resolveWith_error :
    (∀ strict, (p.resolveWith strict).program = p.resolve.value ∧
      (p.resolved strict).trace = (p.resolved false).trace ∧
      (p.resolved strict).value = (p.resolveWith strict).verdict) ∧
    ((p.resolveWith false).error = none ∧ (p.resolved false).value = .ok p.resolve.value) ∧
    ((∃ f, (p.resolved true).value = .error f) ↔
      ∃ v ∈ p.visits, ∃ f, v.Faulty (.ofProgram p) f) ∧
    ∀ f, (p.resolved true).value = .error f ↔
      ∃ before v after, p.visits = before ++ v :: after ∧
        (∀ v' ∈ before, ∀ f', ¬v'.Faulty (.ofProgram p) f') ∧ v.Faulty (.ofProgram p) f := by
  have hstrict : ∀ f, (p.resolved true).value = .error f ↔ p.firstFault? = some f := by
    intro f
    change (p.resolveWith true).verdict = .error f ↔ (p.resolveWith true).error = some f
    rw [Resolution.verdict]
    cases (p.resolveWith true).error <;> simp
  refine ⟨fun strict => ⟨rfl, rfl, rfl⟩,
    ⟨p.error_resolveWith_lenient, p.verdict_resolveWith_lenient⟩, ?_, fun f => ?_⟩
  · simp only [hstrict, ← Option.isSome_iff_exists]
    exact p.isSome_firstFault?_iff
  · rw [hstrict]
    exact p.firstFault?_eq_some_iff

-- A method call on a value is judged after its object, although it encloses it.
example :
    let object : Expr := ⟨⟨4, 2⟩, .ident "xs", none⟩
    let call : Expr := ⟨⟨4, 13⟩, .methodCall object "includes" none [] none, none⟩
    let f : FunctionDecl := ⟨.zero, "f", [], .void, .ofStmts [.expr call], false, none⟩
    faults (Program.resolve ⟨[.function f]⟩) =
      [⟨.unbound "xs", ⟨4, 2⟩⟩, ⟨.ambiguousMethod "includes", ⟨4, 13⟩⟩] := by
  decide +kernel

end Program

end Oxidize
