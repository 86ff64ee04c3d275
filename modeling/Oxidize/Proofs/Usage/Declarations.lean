import Oxidize.Proofs.Usage.Changes

/-!
# Declarations and the variables they number

`Stmt.declarationsList` lists the declarations of a text in the order in which the usage walk numbers
them, each with the statements it is visible to, and `Declaration.changed` says whether these change
it. `Stmt.usageList_decides` says that the walk changes the variable with the number of a declaration
exactly if the declaration is changed in the text.
-/

namespace Oxidize

/-! ## Declarations -/

/-- How a variable is declared inside a body. -/
inductive DeclarationKind where
  /-- By a declaration with the given type, if any, and with or without a value. -/
  | letVar (ty : Option Ty) (hasValue : Bool)
  /-- As the variable of a loop. -/
  | loop

/-- The declaration of a variable. -/
structure Declaration where
  kind : DeclarationKind
  name : String
  /-- The variable is marked as mutable where it is declared. -/
  mutable : Bool
  /-- The statements that the variable is visible to, up to where its name is declared anew. -/
  scope : List Stmt

/-- The variable is changed where it is visible. -/
def Declaration.changed (r : Registry) (d : Declaration) : Bool :=
  Stmt.changesList r d.name d.scope

mutual

/-- The variables that a statement declares, inside it too, in the order of the text. A declaration
is visible to the rest of the statements it stands among. -/
def Stmt.declarations (rest : List Stmt) : Stmt → List Declaration
  | .letVar _ name ty mutable init => [⟨.letVar ty init.isSome, name, mutable, rest⟩]
  | .ifElse _ _ thenBlock elseBlock => thenBlock.declarations ++ Block.declarations? elseBlock
  | .whileLoop _ _ body | .block body => body.declarations
  | .forEach _ var _ body => ⟨.loop, var, false, body.stmts⟩ :: body.declarations
  | .switch _ _ cases => SwitchCase.declarationsList cases
  | .assign _ _ _ | .ret _ _ | .breakLoop _ | .continueLoop _ | .expr _ => []

/-- The variables that statements declare. -/
def Stmt.declarationsList : List Stmt → List Declaration
  | [] => []
  | s :: ss => s.declarations ss ++ Stmt.declarationsList ss

/-- The variables that a block declares. -/
def Block.declarations : Block → List Declaration
  | ⟨_, stmts⟩ => Stmt.declarationsList stmts

/-- The variables that an optional block declares. -/
def Block.declarations? : Option Block → List Declaration
  | none => []
  | some body => body.declarations

/-- The variables that the cases of a switch declare. -/
def SwitchCase.declarationsList : List SwitchCase → List Declaration
  | [] => []
  | ⟨_, _, body, _⟩ :: cases => Stmt.declarationsList body ++ SwitchCase.declarationsList cases

end

/-- What happens in scope happens to variables that have a number. -/
theorem AllInScope.changedIn {b : Bindings} {events : List UsageEvent} (h : AllInScope b events)
    (hb : b.Numbered) {id : BindingId} (hid : b.next ≤ id) : changedIn events id = false := by
  have hne : ∀ {name : String} {found : BindingId}, b.lookup? name = some found → found ≠ id :=
    fun hl => Nat.ne_of_lt (Nat.lt_of_lt_of_le (hb.lookup_lt hl) hid)
  refine List.any_eq_false.2 fun event hevent => ?_
  have hscope := h event hevent
  cases event with
  | declare => exact hscope.elim
  | read => simp [UsageEvent.isWriteOf, UsageEvent.isMutationOf]
  | write found | mutate found =>
    obtain ⟨name, hl⟩ := hscope
    simp [UsageEvent.isWriteOf, UsageEvent.isMutationOf, hne hl]

/-- A walk numbers the declarations in order, and it changes the variable with the number of a
declaration exactly if that one is changed where it is visible. -/
structure Decides (r : Registry) (b : Bindings) (walk : Walking) (ds : List Declaration) : Prop where
  next : walk.value.next = b.next + ds.length
  changed : ∀ j d, ds[j]? = some d → changedIn walk.trace (b.next + j) = d.changed r
  later : ∀ id, walk.value.next ≤ id → changedIn walk.trace id = false

namespace Decides

variable {r : Registry} {b : Bindings} {walk : Walking} {ds ds' : List Declaration}
  {f : Bindings → Walking}

/-- A walk over nothing has no declaration to decide. -/
theorem pure (b : Bindings) : Decides r b (Pure.pure b) [] where
  next := rfl
  changed := nofun
  later _ _ := rfl

/-- Events about variables in scope decide no later declaration. -/
theorem tell {events : List UsageEvent} (he : AllInScope b events) (hb : b.Numbered)
    (h : Decides r b walk ds) : Decides r b (Traced.tellAll events >>= fun _ => walk) ds where
  next := h.next
  changed j d hd := by
    rw [Traced.trace_bind, changedIn_append, Traced.tellAll,
      he.changedIn hb (Nat.le_add_right _ _), Bool.false_or]
    exact h.changed j d hd
  later id hid := by
    have hle : b.next ≤ id := Nat.le_trans (h.next ▸ Nat.le_add_right _ _) hid
    rw [Traced.trace_bind, changedIn_append, Traced.tellAll, he.changedIn hb hle, Bool.false_or]
    exact h.later id hid

/-- What a walk declares is out of sight of what comes after it. -/
theorem bind (h : Decides r b walk ds)
    (hhidden : ∀ id, b.next ≤ id → id < walk.value.next →
      changedIn (f walk.value).trace id = false)
    (hf : Decides r walk.value (f walk.value) ds') : Decides r b (walk >>= f) (ds ++ ds') where
  next := by
    rw [Traced.value_bind, hf.next, h.next, List.length_append, Nat.add_assoc]
  changed j d hd := by
    rw [Traced.trace_bind, changedIn_append]
    by_cases hj : j < ds.length
    · rw [List.getElem?_append_left hj] at hd
      have hlt : b.next + j < walk.value.next := h.next ▸ Nat.add_lt_add_left hj _
      rw [h.changed j d hd, hhidden _ (Nat.le_add_right _ _) hlt, Bool.or_false]
    · rw [List.getElem?_append_right (Nat.le_of_not_lt hj)] at hd
      have hnumber : b.next + j = walk.value.next + (j - ds.length) := by
        rw [h.next, Nat.add_assoc, Nat.add_sub_cancel' (Nat.le_of_not_lt hj)]
      rw [hnumber, h.later _ (Nat.le_add_right _ _), hf.changed _ d hd, Bool.false_or]
  later id hid := by
    have hle : walk.value.next ≤ id := Nat.le_trans (hf.next ▸ Nat.le_add_right _ _) hid
    rw [Traced.trace_bind, changedIn_append, h.later id hle, hf.later id hid]
    rfl

/-- A walk in a frame decides the declarations in it. -/
theorem framed (h : Decides r b.push walk ds) :
    Decides r b (walk >>= fun b => Pure.pure b.pop) ds where
  next := h.next
  changed j d hd := by
    rw [Traced.trace_bind, Traced.trace_pure, List.append_nil]
    exact h.changed j d hd
  later id hid := by
    rw [Traced.trace_bind, Traced.trace_pure, List.append_nil]
    exact h.later id hid

/-- A variable is changed by what it is visible to. -/
theorem declared {d : Declaration} {ty : Ty}
    (hd : changedIn (f (b.declare d.name)).trace b.next = d.changed r)
    (h : Decides r (b.declare d.name) (f (b.declare d.name)) ds) :
    Decides r b (b.walkDeclare d.name ty false >>= f) (d :: ds) := by
  refine ⟨?_, fun j d' hj => ?_, h.later⟩
  · have hvalue := h.next
    rw [Bindings.next_declare, Nat.add_assoc, Nat.add_comm 1] at hvalue
    exact hvalue
  · cases j with
    | zero =>
      cases hj
      exact hd
    | succ j =>
      have hrest := h.changed j d' hj
      rw [Bindings.next_declare, Nat.add_assoc, Nat.add_comm 1 j] at hrest
      exact hrest

end Decides

section
variable {registry r : Registry} {σ : Scopes} {nodes : List Expr} {out : Traced Place Scopes}
  {walk : Walking}

/-- Events change no variable that is not visible. -/
theorem ChangesAs.eq_false {id : BindingId} {events : List UsageEvent} {changes : String → Bool}
    (h : ChangesAs id none events changes) : changedIn events id = false :=
  h

/-- What is declared inside frames that have been closed is not visible to what comes after them. -/
theorem Visits.decides_bind {ds ds' : List Declaration} {f : Bindings → Walking}
    (hout : Visits σ nodes out walk) (hwalk : Walks σ.walked walk)
    (hscope : walk.value.scope = σ.walked.scope) (hb : σ.walked.Numbered)
    (h : Decides r σ.walked walk ds)
    (hf : out.value.walked.Numbered → Decides r out.value.walked (f out.value.walked) ds')
    (hhidden : ∀ id, out.value.Shows id none →
      changedIn (f out.value.walked).trace id = false) :
    Decides r σ.walked (walk >>= f) (ds ++ ds') := by
  rw [hout.walked] at hf hhidden
  refine h.bind (fun id hid hlt => hhidden id ⟨hout.agree, ?_, ?_⟩) (hf (hwalk.numbered hb))
  · rw [hout.walked]
    exact hlt
  · rw [hout.walked]
    exact (Bindings.Shows.none_of_le hb hid).of_scope hscope

mutual

/-- The walk over a statement that declares nothing for the statements after it. -/
theorem Stmt.usage_decides (rest : List Stmt) :
    (s : Stmt) → s.declares = [] → {σ : Scopes} → σ.Agree → σ.walked.Numbered →
      JudgedAt r (s.places registry σ) →
      Decides r σ.walked (s.usage (some r) σ.walked) (s.declarations rest)
  | .letVar .., hs, _, _, _, _ => nomatch hs
  | .assign _ target value, _, σ, _, hb, _ => by
    rw [Stmt.usage, Stmt.declarations]
    exact .tell (target.placeUsage_inScope (some r) σ.walked) hb
      (.tell (value.usage_inScope (some r) σ.walked _) hb (.pure _))
  | .ret _ value, _, σ, _, hb, _ => by
    rw [Stmt.usage, Stmt.declarations]
    exact .tell (Expr.usage?_inScope (some r) σ.walked _ value) hb (.pure _)
  | .ifElse _ cond thenBlock elseBlock, _, σ, hσ, hb, hj => by
    rw [Stmt.places] at hj
    rw [Stmt.usage, Stmt.declarations]
    have hthen := (thenBlock.places_encloses registry (some r) σ hσ).toVisits
    refine .tell (cond.usage_inScope (some r) σ.walked _) hb ?_
    exact hthen.decides_bind (thenBlock.usage_walks (some r) σ.walked)
      (thenBlock.usage_scope (some r) σ.walked) hb
      (thenBlock.usage_decides false hσ hb hj.rest.first)
      (fun hnumbered => Block.usage?_decides elseBlock hthen.agree hnumbered hj.rest.rest)
      fun _ hhidden => (Block.changesAs? elseBlock hhidden hj.rest.rest).eq_false
  | .whileLoop _ cond body, _, σ, hσ, hb, hj => by
    rw [Stmt.places] at hj
    rw [Stmt.usage, Stmt.declarations]
    exact .tell (cond.usage_inScope (some r) σ.walked _) hb
      (body.usage_decides false hσ hb hj.rest)
  | .forEach _ var iterable body, _, σ, hσ, hb, hj => by
    rw [Stmt.places] at hj
    rw [Stmt.usage, Stmt.declarations]
    refine .tell (iterable.usage_inScope (some r) σ.walked _) hb ?_
    rw [← Traced.bind_assoc]
    have hshows := Scopes.Shows.declare_self (hσ.enter false) hb.push var
      iterable.tyOrVoid.loopElement
    have hchanged := body.changesAs false hshows hj.rest.first
    have hbody := body.usage_decides false hshows.agree (hb.push.declare var) hj.rest.first
    exact .framed (.declared (d := ⟨.loop, var, false, body.stmts⟩)
      (hchanged.trans (body.changes_eq r var)) hbody)
  | .switch _ scrutinee cases, _, σ, hσ, hb, hj => by
    rw [Stmt.places] at hj
    rw [Stmt.usage, Stmt.declarations]
    exact .tell (scrutinee.usage_inScope (some r) σ.walked _) hb
      (SwitchCase.usageList_decides cases hσ hb hj.rest)
  | .breakLoop _, _, σ, _, _, _ | .continueLoop _, _, σ, _, _, _ => .pure σ.walked
  | .expr e, _, σ, _, hb, _ => by
    rw [Stmt.usage, Stmt.declarations]
    exact .tell (e.usage_inScope (some r) σ.walked _) hb (.pure _)
  | .block body, _, σ, hσ, hb, hj => by
    rw [Stmt.declarations]
    exact body.usage_decides false hσ hb hj

/-- The walk over statements changes the variables that they declare exactly if these are changed
where they are visible. -/
theorem Stmt.usageList_decides :
    (ss : List Stmt) → {σ : Scopes} → σ.Agree → σ.walked.Numbered →
      JudgedAt r (Stmt.placesList registry σ ss) →
      Decides r σ.walked (Stmt.usageList (some r) σ.walked ss) (Stmt.declarationsList ss)
  | [], σ, _, _, _ => .pure σ.walked
  | s :: ss, σ, hσ, hb, hj => by
    by_cases hs : s.declares = []
    · rw [Stmt.placesList] at hj
      have hvisits := s.places_visits registry (some r) σ hσ
      exact hvisits.decides_bind (s.usage_walks (some r) σ.walked)
        (s.usage_scope (some r) σ.walked hs) hb (s.usage_decides ss hs hσ hb hj.first)
        (fun hnumbered => Stmt.usageList_decides ss hvisits.agree hnumbered hj.rest)
        fun _ hhidden => (Stmt.changesAsList ss hhidden hj.rest).eq_false
    · cases s with
      | letVar _ name ty mutable init =>
        rw [Stmt.placesList, Stmt.places] at hj
        rw [Stmt.usageList, Stmt.usage, Stmt.declarationsList, Stmt.declarations, Traced.bind_assoc]
        have hshows := Scopes.Shows.declare_self hσ hb name
          (((ty.map registry.normalize) <|> init.bind (·.ty)).getD .void)
        have hchanged := Stmt.changesAsList ss hshows hj.rest
        have hrest := Stmt.usageList_decides ss hshows.agree (hb.declare name) hj.rest
        exact .tell (Expr.usage?_inScope (some r) σ.walked _ init) hb
          (.declared (d := ⟨.letVar ty init.isSome, name, mutable, ss⟩) hchanged hrest)
      | _ => exact absurd rfl hs

/-- The walk over a block decides its declarations. -/
theorem Block.usage_decides :
    (body : Block) → (inline : Bool) → {σ : Scopes} → σ.Agree → σ.walked.Numbered →
      JudgedAt r (body.places registry σ inline) →
      Decides r σ.walked (body.usage (some r) σ.walked) body.declarations
  | ⟨_, stmts⟩, inline, σ, hσ, hb, hj => by
    rw [Block.places] at hj
    rw [Block.usage, Block.declarations]
    exact .framed (Stmt.usageList_decides stmts (hσ.enter inline) hb.push hj.first)

/-- The walk over an optional block decides its declarations. -/
theorem Block.usage?_decides :
    (body : Option Block) → {σ : Scopes} → σ.Agree → σ.walked.Numbered →
      JudgedAt r (Block.places? registry σ body) →
      Decides r σ.walked (Block.usage? (some r) σ.walked body) (Block.declarations? body)
  | none, σ, _, _, _ => .pure σ.walked
  | some body, _, hσ, hb, hj => body.usage_decides _ hσ hb hj

/-- The walk over the cases of a switch decides their declarations. -/
theorem SwitchCase.usageList_decides :
    (cases : List SwitchCase) → {σ : Scopes} → σ.Agree → σ.walked.Numbered →
      JudgedAt r (SwitchCase.placesList registry σ cases) →
      Decides r σ.walked (SwitchCase.usageList (some r) σ.walked cases)
        (SwitchCase.declarationsList cases)
  | [], σ, _, _, _ => .pure σ.walked
  | ⟨_, value, body, _⟩ :: cases, σ, hσ, hb, hj => by
    rw [SwitchCase.placesList] at hj
    rw [SwitchCase.usageList, SwitchCase.declarationsList]
    have hbody := (Visits.caseBody registry (some r) hσ
      (Stmt.placesList_visits registry (some r) body _ (hσ.enter _))).toVisits
    have hwalks := Stmt.usageList_walks (some r) body σ.walked.push
    have hcases := hbody.decides_bind (f := fun b => SwitchCase.usageList (some r) b cases)
      hwalks.framed hwalks.scope_pop hb
      (.framed (Stmt.usageList_decides body (hσ.enter (isEmptyCase body)) hb.push hj.rest.first))
      (fun hnumbered => SwitchCase.usageList_decides cases hbody.agree hnumbered hj.rest.rest)
      fun _ hhidden => (SwitchCase.changesAs cases hhidden hj.rest.rest).eq_false
    rw [Traced.bind_assoc] at hcases
    exact .tell (Expr.usage?_inScope (some r) σ.walked _ value) hb hcases

end

end

end Oxidize
