import Oxidize.Compile
import Oxidize.Proofs.Duplicable.Composition
import Oxidize.Proofs.Emit.MutArguments
import Oxidize.Proofs.Typing.Visits

/-!
# Text elements of a sequence literal

A sequence literal in a place that takes a sequence of owned text does not always hold owned text.
What its elements are made to fit is the annotation of the literal, and this goes by the first
element: only where the first element has no type does the literal adopt the type of its place.

`coerce_owned_iff` says when a single text is made to own its buffer, and
`Program.governed_text_elements` puts it together with the annotation that resolution gives. A
literal that starts with a plain text is emitted without any conversion
(`Program.plainTexts_compile`).
-/

namespace Oxidize

/-! ## One text -/

/-- A text literal, or an expression whose type is a view of text. -/
def Expr.isTextual (r : Registry) (e : Expr) : Bool :=
  e.isTextLiteral || (e.ty.map r.normalize).any (·.stripRefs.isViewText)

/-- The text of an expression that is made to own its buffer. -/
def ownedTextOf (e : Expr) (code : String) : String :=
  receiverText e code ++ ".to_string()"

section
variable {r : Registry} {e : Expr} {code : String}

/-- The text of a receiver is no shorter than that of its expression. -/
theorem length_le_receiverText : code.length ≤ (receiverText e code).length := by
  unfold receiverText parenthesizeIf
  split
  · simp only [String.length_append]
    omega
  · exact Nat.le_refl _

/-- Making a text own its buffer adds a call. -/
theorem length_ownedTextOf : (ownedTextOf e code).length = (receiverText e code).length + 12 := by
  rw [ownedTextOf, String.length_append]
  rfl

/-- A text that got no longer than by a borrow is not what owns its buffer. -/
theorem ne_ownedTextOf_of_length {text : String} (h : text.length ≤ code.length + 5) :
    text ≠ ownedTextOf e code := by
  rintro rfl
  have hle : code.length ≤ (receiverText e code).length := length_le_receiverText
  rw [length_ownedTextOf] at h
  omega

/-- What can become of a text: it gets longer by a borrow at most, it is made to own its buffer where
owned text is expected, or it is wrapped into an optional. -/
theorem coerceWithin_cases {actual : Option Ty} {n : Nat} {t : Ty} {text : String}
    (h : coerceWithin r e actual code n t = text) :
    text.length ≤ code.length + 5 ∨ (r.normalize t = .ownedText ∧ text = ownedTextOf e code) ∨
      ∃ m inner, text = "Some(" ++ coerceWithin r e actual code m inner ++ ")" := by
  have hcode : code.length ≤ code.length + 5 := Nat.le_add_right ..
  cases n with
  | zero =>
    subst h
    exact .inl hcode
  | succ n =>
    rw [coerceWithin] at h
    split at h
    · next howned =>
      split at h
      · exact .inr (.inl ⟨howned, h.symm⟩)
      · exact .inl (h ▸ hcode)
    · next inner _ =>
      split at h
      · exact .inr (.inr ⟨n, inner, h.symm⟩)
      · exact .inl (h ▸ hcode)
    · next mutable _ =>
      split at h
      · have hmark : (if mutable then "&mut " else "&").length ≤ 5 := by cases mutable <;> decide
        have hlength := congrArg String.length h
        rw [String.length_append] at hlength
        exact .inl (by omega)
      · exact .inl (h ▸ hcode)
    · exact .inl (h ▸ hcode)

/-- What is wrapped into an optional is of another length than what owns its buffer, or ends in two
brackets. -/
theorem wrapped_ne_ownedTextOf (actual : Option Ty) (n : Nat) (t : Ty) :
    "Some(" ++ coerceWithin r e actual code n t ++ ")" ≠ ownedTextOf e code := by
  intro heq
  have hle : code.length ≤ (receiverText e code).length := length_le_receiverText
  have hlength := congrArg String.length heq
  rw [String.length_append, String.length_append, show "Some(".length = 5 from rfl,
    show ")".length = 1 from rfl] at hlength
  rcases coerceWithin_cases (rfl : coerceWithin r e actual code n t = _) with
    hshort | ⟨-, howned⟩ | ⟨m, inner, hwrapped⟩
  · rw [length_ownedTextOf] at hlength
    omega
  · rw [howned] at hlength
    omega
  · rw [hwrapped, ownedTextOf] at heq
    have hend := congrArg (fun s : String => s.toList.reverse.take 2) heq
    simp [String.toList_append] at hend

/-- A text is made to own its buffer exactly where owned text is expected. -/
theorem coerce_owned_iff (htext : e.isTextual r = true) (t : Ty) :
    coerce r e code (some t) = ownedTextOf e code ↔ r.normalize t = .ownedText := by
  obtain ⟨n, hcoerce⟩ := exists_coerce_eq r e code t
  rw [hcoerce]
  constructor
  · intro heq
    rcases coerceWithin_cases heq with hshort | ⟨howned, -⟩ | ⟨m, inner, hwrapped⟩
    · exact (ne_ownedTextOf_of_length hshort rfl).elim
    · exact howned
    · exact (wrapped_ne_ownedTextOf _ m inner hwrapped.symm).elim
  · intro howned
    unfold Expr.isTextual at htext
    simp only [coerceWithin, howned, htext, if_true]
    rfl

end

/-! ## The annotation of a literal -/

/-- The type of the first of several expressions. -/
def firstTy (es : List Expr) : Ty :=
  (es.head?.map Expr.tyOrVoid).getD .void

/-- The type of the elements of a literal, from the type of its first element and the type of the
place that it stands in. -/
def elementTyFor (expected : Option Ty) (first : Ty) : Ty :=
  match first, expected with
  | .void, some (.seq t) => t
  | t, _ => t

/-- A sequence adopts the type of its elements from the place it stands in if it has none itself. -/
theorem adopt_seq (expected : Option Ty) (first : Ty) :
    adopt expected (.seq first) = .seq (elementTyFor expected first) := by
  unfold adopt elementTyFor
  split <;> split <;> simp_all

section
variable {r : Registry} {env : Env}

/-- An annotated expression has the type of its annotation. -/
theorem Expr.knownTy_of_isSome : {e : Expr} → e.ty.isSome = true → e.knownTy r env = e.tyOrVoid
  | ⟨_, _, some _⟩, _ => rfl

/-- What a visit leaves of a sequence literal. -/
theorem Visit.output_array {v : Visit} {items : List Expr} (h : v.input.kind = .array items) :
    ∃ resolved, (v.output r).kind = .array resolved ∧ resolved.length = items.length ∧
      (v.output r).ty = some (.seq (elementTyFor v.expected (firstTy resolved))) := by
  obtain ⟨env, expected, span, kind, ty⟩ := v
  cases h
  refine ⟨_, by rw [Visit.kind_output, ExprKind.resolve]; rfl, Expr.length_resolveList .., ?_⟩
  rw [Visit.output, Expr.resolve, ExprKind.resolve]
  simp only [Traced.value_bind, Traced.value_pure, ExprKind.infer, adopt_seq]
  congr 3
  cases items with
  | nil => rfl
  | cons e es =>
    rw [Expr.resolveList]
    simp only [Traced.value_bind, Traced.value_pure, Expr.knownTys, firstTy, List.head?_cons,
      Option.map_some, Option.getD_some]
    exact Expr.knownTy_of_isSome (Visit.isSome_ty_output r ⟨env, _, e⟩)

end

/-! ## Governed literals -/

/-- A type that is expanded down to a basic one needs no further layer. -/
theorem Registry.normalizeWithin_prim_succ {r : Registry} {q : Prim} :
    {n : Nat} → {t : Ty} → r.normalizeWithin n t = .prim q → r.normalizeWithin (n + 1) t = .prim q
  | 0, _, rfl => rfl
  | n + 1, t, h => by
    cases t with
    | prim p => exact h
    | aggregate name | enum name =>
      rw [normalizeWithin] at h ⊢
      split at h
      · exact normalizeWithin_prim_succ h
      · split at h <;> cases h
    | _ => cases h

/-- A literal in a place for owned texts expects owned text of its elements exactly if the first one
is owned text, or has no type while the place is written as a sequence. -/
theorem normalize_elementTyFor_iff {r : Registry} {t first : Ty}
    (h : r.normalize t = .seq .ownedText) :
    r.normalize (elementTyFor (some t) first) = .ownedText ↔
      r.normalize first = .ownedText ∨ (first = .void ∧ ∃ u, t = .seq u) := by
  unfold elementTyFor
  split
  · next u heq =>
    cases heq
    have helem : r.normalize u = .ownedText :=
      Registry.normalizeWithin_prim_succ (Ty.seq.inj h)
    exact ⟨fun _ => .inr ⟨rfl, u, rfl⟩, fun _ => helem⟩
  · next hother =>
    refine ⟨.inl, ?_⟩
    rintro (howned | ⟨rfl, u, rfl⟩)
    · exact howned
    · exact (hother u rfl rfl).elim

/-- Emission expands aliases as resolution does: closing the duplicable types changes only tags. -/
theorem Program.normalize_tagged (p : Program) (cap : Nat) :
    (Registry.ofProgram (p.resolve.value.copyClosure cap).value.1).normalize =
      (Registry.ofProgram p).normalize := by
  have hresolve := Registry.ofProgram_resolve p
  have halias := p.resolve.value.aliases_tagged cap
  have henum := p.resolve.value.enums_tagged cap
  rw [← hresolve]
  funext t
  refine Registry.normalizeWithin_congr halias (fun name => ?_) _ t
  rw [Bool.eq_iff_iff, Registry.isEnum_iff, Registry.isEnum_iff]
  change name ∈ (p.resolve.value.tagged cap).enums.map (·.name) ↔ _
  rw [henum]
  rfl

section
variable {cx : FnContext} {b : Bindings}

/-- There is a text for each argument. -/
theorem Expr.length_renderArgs {pos : ReadPosition} :
    ∀ {es : List Expr} {params : List Ty} {reads after : List Read} {codes : List String},
      (Expr.renderArgs cx b pos params es).run reads = .ok (codes, after) →
      codes.length = es.length
  | [], _, _, _, _, h => by
    rw [Expr.renderArgs] at h
    cases h
    rfl
  | e :: es, params, reads, after, codes, h => by
    rw [Expr.renderArgs] at h
    obtain ⟨code, reads₁, -, h⟩ := Rendering.exists_of_run_bind h
    obtain ⟨rest, reads₂, htail, h⟩ := Rendering.exists_of_run_bind h
    cases h
    exact congrArg (· + 1) (Expr.length_renderArgs htail)

/-- The elements of an annotated literal are rendered in order and made to fit its element type. -/
theorem Expr.render_array {e : Expr} {items : List Expr} {elem : Ty} {pos : ReadPosition}
    {reads after : List Read} {text : String} (hkind : e.kind = .array items)
    (hty : e.ty = some (.seq elem)) (h : (e.render cx b pos).run reads = .ok (text, after)) :
    ∃ codes, text = "vec![" ++ commaList codes ++ "]" ∧ codes.length = items.length ∧
      ∀ (i : Nat) item, items[i]? = some item →
        ∃ before code read, (item.render cx b .value).run before = .ok (code, read) ∧
          codes[i]? = some (coerce cx.registry item code (some elem)) := by
  obtain ⟨span, kind, ty⟩ := e
  cases hkind
  cases hty
  rw [Expr.render] at h
  obtain ⟨codes, after', hargs, h⟩ := Rendering.exists_of_run_bind h
  cases h
  refine ⟨codes, rfl, Expr.length_renderArgs hargs, fun i item hi => ?_⟩
  obtain ⟨before, code, read, hrun, hcode, -⟩ := Expr.renderArgs_run hargs hi
  refine ⟨before, code, read, hrun, hcode.trans ?_⟩
  have hbound : i < items.length := (List.getElem?_eq_some_iff.1 hi).1
  change some (coerce cx.registry item code (List.replicate items.length elem)[i]?) = _
  rw [List.getElem?_replicate, if_pos hbound]

end

/-- **Text elements go by the first element.** A sequence literal in a place whose type normalizes to
a sequence of owned text stands in a resolved body, and its elements are emitted in order, each made
to fit the element type of the literal's annotation. An element that is a text literal or views text
is made to own its buffer if and only if the first element is owned text, or has no type while the
type of the place is written as a sequence. -/
theorem Program.governed_text_elements (p : Program) (cap : Nat) (v : Visit) (items : List Expr)
    (t : Ty) (hv : v ∈ p.visits) (hitems : v.input.kind = .array items)
    (hexpected : v.expected = some t)
    (hgoverned : (Registry.ofProgram p).normalize t = .seq .ownedText) :
    let r := Registry.ofProgram p
    (∃ owned ∈ p.ownedBodies, v.result r ∈
      ((owned.2.resolve r owned.1).value.places r owned.1).map Place.typed) ∧
    ∃ resolved, (v.output r).kind = .array resolved ∧ resolved.length = items.length ∧
      ∀ cx : FnContext, cx.registry = .ofProgram (p.resolve.value.copyClosure cap).value.1 →
        ∀ b pos reads text after, ((v.output r).render cx b pos).run reads = .ok (text, after) →
          ∃ codes, text = "vec![" ++ commaList codes ++ "]" ∧ codes.length = items.length ∧
            ∀ (i : Nat) item, resolved[i]? = some item →
              ∃ before code read, (item.render cx b .value).run before = .ok (code, read) ∧
                codes[i]? = some (coerce cx.registry item code
                  (some (elementTyFor (some t) (firstTy resolved)))) ∧
                (item.isTextual r = true → (codes[i]? = some (ownedTextOf item code) ↔
                  r.normalize (firstTy resolved) = .ownedText ∨
                    (firstTy resolved = .void ∧ ∃ u, t = .seq u))) := by
  intro r
  obtain ⟨owned, howned, hvisit⟩ := Program.mem_visits.1 hv
  refine ⟨⟨owned, howned, (owned.2.visits_perm r owned.1).subset (List.mem_map_of_mem hvisit)⟩, ?_⟩
  obtain ⟨resolved, hkind, hlength, hty⟩ := v.output_array hitems
  rw [hexpected] at hty
  refine ⟨resolved, hkind, hlength, fun cx hcx b pos reads text after hrun => ?_⟩
  have hnormalize : cx.registry.normalize = r.normalize := hcx ▸ p.normalize_tagged cap
  obtain ⟨codes, htext, hcodes, helems⟩ := Expr.render_array hkind hty hrun
  refine ⟨codes, htext, hcodes.trans hlength, fun i item hi => ?_⟩
  obtain ⟨before, code, read, hitem, hcode⟩ := helems i item hi
  refine ⟨before, code, read, hitem, hcode, fun htextual => ?_⟩
  have htextual' : item.isTextual cx.registry = true := by
    rw [Expr.isTextual, hnormalize]
    exact htextual
  rw [hcode, Option.some.injEq, coerce_owned_iff htextual', hnormalize]
  exact normalize_elementTyFor_iff hgoverned

/-- A function that puts an owned text and a text literal into a sequence of owned texts. -/
def Program.mixedTexts : Program :=
  let literal := Expr.ofKind (.literal (.text "b"))
  { decls := [.function ⟨.zero, "join", [⟨"s", .ownedText, false⟩], .void, .ofStmts [
      .letVar .zero "xs" (some (.seq .ownedText)) false
        (some (.ofKind (.array [.ofKind (.ident "s"), literal])))], false, none⟩] }

/-- The literal comes second and is made to own its buffer. -/
theorem Program.mixedTexts_elements :
    let r := Registry.ofProgram mixedTexts
    ∃ v ∈ mixedTexts.visits, ∃ items resolved, v.input.kind = .array items ∧
      v.expected = some (.seq .ownedText) ∧ (v.output r).kind = .array resolved ∧
      resolved.map (·.isTextual r) = [false, true] ∧
      ∀ cx : FnContext,
        cx.registry = .ofProgram (mixedTexts.resolve.value.copyClosure 64).value.1 →
        ∀ b pos reads text after, ((v.output r).render cx b pos).run reads = .ok (text, after) →
          ∃ codes, text = "vec![" ++ commaList codes ++ "]" ∧
            ∃ item code, resolved[1]? = some item ∧ codes[1]? = some (ownedTextOf item code) := by
  intro r
  have hvisits : ∃ v rest, mixedTexts.visits = v :: rest ∧ v.expected = some (.seq .ownedText) ∧
      ∃ items, v.input.kind = .array items ∧ ∃ resolved, (v.output r).kind = .array resolved ∧
        resolved.map (·.isTextual r) = [false, true] ∧
        r.normalize (firstTy resolved) = .ownedText :=
    ⟨_, _, rfl, rfl, _, rfl, _, rfl, rfl, rfl⟩
  obtain ⟨v, rest, hv, hexpected, items, hitems, resolved, hkind, htextual, hfirst⟩ := hvisits
  have hmem : v ∈ mixedTexts.visits := hv ▸ List.mem_cons_self
  obtain ⟨-, resolved', hkind', -, helems⟩ :=
    governed_text_elements mixedTexts 64 v items _ hmem hitems hexpected rfl
  cases hkind.symm.trans hkind'
  refine ⟨v, hmem, items, resolved, hitems, hexpected, hkind, htextual, ?_⟩
  intro cx hcx b pos reads text after hrun
  obtain ⟨codes, htext, -, hcodes⟩ := helems cx hcx b pos reads text after hrun
  have hsecond : (resolved.map (·.isTextual r))[1]? = some true := by rw [htextual]; rfl
  rw [List.getElem?_map] at hsecond
  obtain ⟨item, hitem, htext'⟩ := Option.map_eq_some_iff.1 hsecond
  obtain ⟨-, code, -, -, -, howned⟩ := hcodes 1 item hitem
  exact ⟨codes, htext, item, code, hitem, (howned htext').2 (.inl hfirst)⟩

/-- A function that puts two text literals into a sequence of owned texts. -/
def Program.plainTexts : Program :=
  let literal := fun s => Expr.ofKind (.literal (.text s))
  { decls := [.function ⟨.zero, "names", [], .void, .ofStmts [
      .letVar .zero "xs" (some (.seq .ownedText)) false
        (some (.ofKind (.array [literal "a", literal "b"])))], false, none⟩] }

/-- Neither literal is made to own its buffer, although the variable is declared to hold owned
texts. -/
theorem Program.plainTexts_compile :
    (plainTexts.compile {}).value.toOption.map (·.source) =
      some ("fn names() \x7b\n    let xs: Vec<String> = vec![\"a\", \"b\"];\n\x7d\n") := by
  decide +kernel

end Oxidize
