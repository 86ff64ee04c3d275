import Oxidize.Program.Reader
import Oxidize.Proofs.Nodes

/-!
# Written programs read back

A reader gets the number of arrays and objects that it may enter, and `Json.nesting` is how many
have to be entered to see all of a value. Every reader gives back what was written wherever its
number is not below the nesting of the written value. For types, expressions and statements this
goes by induction over the syntax: a written choice is an object over its payload, so a case opens
the object, takes the record apart and leaves each field to the induction hypothesis.

The one thing that is written and cannot be read is a number literal that is not finite. So
`Program.ofJson?_toJson` is about programs whose number literals are.
-/

namespace Oxidize

namespace Json

/-! ## Nesting -/

mutual

/-- How many arrays and objects are open at the deepest place of a value. -/
def nesting : Json → Nat
  | .array items => nestingItems items + 1
  | .object members => nestingMembers members + 1
  | _ => 0

/-- The nesting of the deepest item. -/
def nestingItems : List Json → Nat
  | [] => 0
  | item :: items => max item.nesting (nestingItems items)

/-- The nesting of the deepest member. -/
def nestingMembers : List (String × Json) → Nat
  | [] => 0
  | (_, item) :: members => max item.nesting (nestingMembers members)

end

/-- Items are nested as deep as the deepest of them. -/
theorem nestingItems_le {items : List Json} {n : Nat} :
    nestingItems items ≤ n ↔ ∀ item ∈ items, item.nesting ≤ n := by
  induction items with
  | nil => simp [nestingItems]
  | cons item items ih => rw [nestingItems, Nat.max_le, ih, List.forall_mem_cons]

/-- Members are nested as deep as the deepest of their values. -/
theorem nestingMembers_le {members : List (String × Json)} {n : Nat} :
    nestingMembers members ≤ n ↔ ∀ member ∈ members, member.2.nesting ≤ n := by
  induction members with
  | nil => simp [nestingMembers]
  | cons member members ih => rw [nestingMembers, Nat.max_le, ih, List.forall_mem_cons]

/-- A bound on a successor is itself a successor. -/
theorem succ_le_iff_exists {k n : Nat} : k + 1 ≤ n ↔ ∃ m, n = m + 1 ∧ k ≤ m := by
  constructor
  · intro h
    exact ⟨n - 1, by omega, by omega⟩
  · rintro ⟨m, rfl, h⟩
    omega

/-- An array fits a bound if its items fit the bound below it. -/
theorem nesting_array_le {items : List Json} {n : Nat} :
    (array items).nesting ≤ n ↔ ∃ m, n = m + 1 ∧ ∀ item ∈ items, item.nesting ≤ m := by
  simp only [nesting, succ_le_iff_exists, nestingItems_le]

/-- An object fits a bound if the values of its members fit the bound below it. -/
theorem nesting_object_le {members : List (String × Json)} {n : Nat} :
    (object members).nesting ≤ n ↔ ∃ m, n = m + 1 ∧ ∀ member ∈ members, member.2.nesting ≤ m := by
  simp only [nesting, succ_le_iff_exists, nestingMembers_le]

/-- A tagged value fits a bound if the value fits the bound below it. -/
theorem nesting_over_le {tag : String} {j : Json} {n : Nat} :
    (Json.over tag j).nesting ≤ n ↔ ∃ m, n = m + 1 ∧ j.nesting ≤ m := by
  simp [Json.over, nesting_object_le]

/-- An optional value fits a bound if the value that is there does. -/
theorem nesting_ofOption_le {α : Type} {write : α → Json} {o : Option α} {n : Nat} :
    (ofOption write o).nesting ≤ n ↔ ∀ a ∈ o, (write a).nesting ≤ n := by
  cases o <;> simp [ofOption, nesting]

/-! ## Fields and lists -/

/-- An optional field reads back if `null` is none of its values. -/
theorem optional_ofOption {α : Type} {write : α → Json} {read : Json → Option α} {o : Option α}
    (hnull : read .null = none) (h : ∀ a ∈ o, read (write a) = some a) :
    optional read (some (ofOption write o)) = some o := by
  cases o with
  | none => rfl
  | some a =>
    have ha : read (write a) = some a := h a rfl
    have hne : write a ≠ .null := by
      intro hw
      rw [hw, hnull] at ha
      cases ha
    rw [ofOption, optional, ha]
    · rfl
    · exact hne

/-- An optional text is read back. -/
theorem optional_string {s : Option String} :
    optional string? (some (ofOption string s)) = some s :=
  optional_ofOption rfl fun _ _ => rfl

/-- Reading items goes from left to right. -/
theorem mapM_cons_eq_some {α : Type} {read : Json → Option α} {item : Json} {items : List Json}
    {a : α} {as : List α} (h : read item = some a) (hs : items.mapM read = some as) :
    (item :: items).mapM read = some (a :: as) := by
  rw [List.mapM_cons, h, hs]
  rfl

/-- If each item is read back, so are all. -/
theorem mapM_written {α : Type} {write : α → Json} {read : Json → Option α} {as : List α}
    (h : ∀ a ∈ as, read (write a) = some a) : (as.map write).mapM read = some as := by
  induction as with
  | nil => rfl
  | cons a as ih =>
    obtain ⟨ha, has⟩ := List.forall_mem_cons.1 h
    exact mapM_cons_eq_some ha (ih has)

/-- A list is read back if each of its items is, at the depth inside the array. -/
theorem listOf_written {α : Type} {write : α → Json} {read : Nat → Json → Option α} {as : List α}
    {n : Nat} (hn : (array (as.map write)).nesting ≤ n)
    (h : ∀ a ∈ as, ∀ m, (write a).nesting ≤ m → read m (write a) = some a) :
    listOf read n (.array (as.map write)) = some as := by
  obtain ⟨m, rfl, hitems⟩ := nesting_array_le.1 hn
  exact mapM_written fun a ha => h a ha m (hitems _ (List.mem_map_of_mem ha))

/-- A list of texts is read back. -/
theorem stringsAt?_ofStrings {tags : List String} {n : Nat} (hn : (ofStrings tags).nesting ≤ n) :
    stringsAt? n (ofStrings tags) = some tags :=
  listOf_written hn fun _ _ _ _ => rfl

/-- A finite number is read back as the same bits. -/
theorem number?_ofNumber {x : Binary64} (hx : x.isFinite = true) : (ofNumber x).number? = some x := by
  rw [ofNumber, if_pos hx]
  rfl

end Json

open Json (nesting_over_le nesting_object_le nesting_array_le nesting_ofOption_le ofOption optional
  optional_ofOption mapM_cons_eq_some listOf_written stringsAt?_ofStrings)

/-! ## Names and ranges -/

/-- The tag of a primitive type is read back. -/
theorem Prim.read_tag (p : Prim) (n : Nat) : Prim.ofJson? n (.string p.tag) = some p := by
  cases p <;> cases n <;> rfl

/-- The tag of a unary operator is read back. -/
theorem UnaryOp.read_tag (op : UnaryOp) (n : Nat) :
    UnaryOp.ofJson? n (.string op.tag) = some op := by
  cases op <;> cases n <;> rfl

/-- The tag of a binary operator is read back. -/
theorem BinOp.read_tag (op : BinOp) (n : Nat) : BinOp.ofJson? n (.string op.tag) = some op := by
  cases op <;> cases n <;> rfl

/-- The way a method takes its object is read back. -/
theorem Receiver.read_toJson (r : Receiver) (n : Nat) : Receiver.ofJson? n r.toJson = some r := by
  cases r <;> cases n <;> rfl

/-- A place in the source is read back. -/
theorem Span.read_toJson (s : Span) {n : Nat} (hn : s.toJson.nesting ≤ n) :
    Span.ofJson? n s.toJson = some s := by
  obtain ⟨n, rfl, -⟩ := nesting_object_le.1 hn
  rfl

/-! ## Types -/

mutual

/-- A type is read back, if it is nested no deeper than the reader goes. -/
theorem Ty.read_toJson : ∀ (t : Ty) {n : Nat}, t.toJson.nesting ≤ n →
    Ty.ofJson? n t.toJson = some t
  | .prim p, _, hn => by
    obtain ⟨n, rfl, -⟩ := nesting_over_le.1 hn
    change (do return .prim (← Prim.ofJson? n (.string p.tag))) = some (Ty.prim p)
    rw [p.read_tag n]
    rfl
  | .seq elem, _, hn => by
    obtain ⟨n, rfl, helem⟩ := nesting_over_le.1 hn
    change (do return .seq (← Ty.ofJson? n elem.toJson)) = some (Ty.seq elem)
    rw [elem.read_toJson helem]
    rfl
  | .aggregate _, _, hn | .enum _, _, hn => by
    obtain ⟨n, rfl, -⟩ := nesting_over_le.1 hn
    rfl
  | .tuple elems, _, hn => by
    obtain ⟨n, rfl, helems⟩ := nesting_over_le.1 hn
    change (do return .tuple (← Ty.listOfJson? n (.array (Ty.toJsonList elems)))) =
      some (Ty.tuple elems)
    rw [Ty.read_toJsonList elems helems]
    rfl
  | .optional inner, _, hn => by
    obtain ⟨n, rfl, hinner⟩ := nesting_over_le.1 hn
    change (do return .optional (← Ty.ofJson? n inner.toJson)) = some (Ty.optional inner)
    rw [inner.read_toJson hinner]
    rfl
  | .ref inner mutable, _, hn => by
    simp only [Ty.toJson, nesting_over_le, nesting_object_le, List.forall_mem_cons] at hn
    obtain ⟨_, rfl, n, rfl, hinner, -⟩ := hn
    change (do return .ref (← Ty.ofJson? n inner.toJson) mutable) = some (Ty.ref inner mutable)
    rw [inner.read_toJson hinner]
    rfl
  | .fn params ret, _, hn => by
    simp only [Ty.toJson, nesting_over_le, nesting_object_le, List.forall_mem_cons] at hn
    obtain ⟨_, rfl, n, rfl, hparams, hret, -⟩ := hn
    change (do
      return .fn (← Ty.listOfJson? n (.array (Ty.toJsonList params)))
        (← Ty.ofJson? n ret.toJson)) = some (Ty.fn params ret)
    rw [Ty.read_toJsonList params hparams, ret.read_toJson hret]
    rfl

/-- A list of types is read back. -/
theorem Ty.read_toJsonList : ∀ (ts : List Ty) {n : Nat},
    (Json.array (Ty.toJsonList ts)).nesting ≤ n →
    Ty.listOfJson? n (.array (Ty.toJsonList ts)) = some ts
  | [], _, hn => by
    obtain ⟨n, rfl, -⟩ := nesting_array_le.1 hn
    rfl
  | t :: ts, _, hn => by
    obtain ⟨n, rfl, hitems⟩ := nesting_array_le.1 hn
    obtain ⟨ht, hts⟩ := List.forall_mem_cons.1 hitems
    exact mapM_cons_eq_some (t.read_toJson ht)
      (Ty.read_toJsonList ts (nesting_array_le.2 ⟨n, rfl, hts⟩))

end

/-- An optional type is read back. -/
theorem Ty.read_ofOption {t : Option Ty} {n : Nat} (hn : (ofOption Ty.toJson t).nesting ≤ n) :
    Json.optional (Ty.ofJson? n) (some (ofOption Ty.toJson t)) = some t :=
  optional_ofOption (by cases n <;> rfl) fun t ht => t.read_toJson (nesting_ofOption_le.1 hn t ht)

/-! ## Expressions -/

/-- Not a number literal past the finite ones. -/
def ExprKind.isFinite : ExprKind → Bool
  | .literal (.number x) => x.isFinite
  | _ => true

/-- A literal with a finite number is read back. -/
theorem Literal.read_toJson (l : Literal) {n : Nat} (hn : l.toJson.nesting ≤ n)
    (hl : (ExprKind.literal l).isFinite = true) : Literal.ofJson? n l.toJson = some l := by
  cases l with
  | number x =>
    obtain ⟨n, rfl, -⟩ := nesting_over_le.1 hn
    change (Json.ofNumber x).number?.map Literal.number = some (.number x)
    rw [Json.number?_ofNumber hl]
    rfl
  | bool b | text s =>
    obtain ⟨n, rfl, -⟩ := nesting_over_le.1 hn
    rfl
  | null => cases n <;> rfl

/-- The target of an aggregate literal is read back. -/
theorem AggregateTarget.read_toJson (t : AggregateTarget) {n : Nat} (hn : t.toJson.nesting ≤ n) :
    AggregateTarget.ofJson? n t.toJson = some t := by
  cases t with
  | pending => cases n <;> rfl
  | named name =>
    obtain ⟨n, rfl, -⟩ := nesting_over_le.1 hn
    rfl

mutual

/-- An expression whose numbers are finite is read back. -/
theorem Expr.read_toJson : ∀ (e : Expr) {n : Nat}, e.toJson.nesting ≤ n →
    (∀ x ∈ e.nodes, x.kind.isFinite = true) → Expr.ofJson? n e.toJson = some e
  | ⟨span, kind, ty⟩, _, hn, hfin => by
    simp only [Expr.toJson, nesting_object_le, List.forall_mem_cons] at hn
    simp only [Expr.nodes, List.forall_mem_cons] at hfin
    obtain ⟨n, rfl, hspan, hkind, hty, -⟩ := hn
    change (do
      return ⟨← Span.ofJson? n span.toJson, ← ExprKind.ofJson? n kind.toJson,
        ← optional (Ty.ofJson? n) (some (ofOption Ty.toJson ty))⟩) = some (Expr.mk span kind ty)
    rw [span.read_toJson hspan, kind.read_toJson hkind hfin.1 hfin.2, Ty.read_ofOption hty]
    rfl

/-- The kind of an expression is read back, with everything inside it. -/
theorem ExprKind.read_toJson : ∀ (k : ExprKind) {n : Nat}, k.toJson.nesting ≤ n →
    k.isFinite = true → (∀ x ∈ k.nodes, x.kind.isFinite = true) →
    ExprKind.ofJson? n k.toJson = some k
  | .literal value, _, hn, hfin, _ => by
    obtain ⟨n, rfl, hvalue⟩ := nesting_over_le.1 hn
    change (do return .literal (← Literal.ofJson? n value.toJson)) = some (ExprKind.literal value)
    rw [value.read_toJson hvalue hfin]
    rfl
  | .ident _, _, hn, _, _ => by
    obtain ⟨n, rfl, -⟩ := nesting_over_le.1 hn
    rfl
  | .unary op expr, _, hn, _, hfin => by
    simp only [ExprKind.toJson, nesting_over_le, nesting_object_le, List.forall_mem_cons] at hn
    obtain ⟨_, rfl, n, rfl, -, hexpr, -⟩ := hn
    change (do
      return .unary (← UnaryOp.ofJson? n (.string op.tag)) (← Expr.ofJson? n expr.toJson)) =
      some (ExprKind.unary op expr)
    rw [op.read_tag n, expr.read_toJson hexpr hfin]
    rfl
  | .binary op left right, _, hn, _, hfin => by
    simp only [ExprKind.toJson, nesting_over_le, nesting_object_le, List.forall_mem_cons] at hn
    simp only [ExprKind.nodes, List.forall_mem_append] at hfin
    obtain ⟨_, rfl, n, rfl, -, hleft, hright, -⟩ := hn
    change (do
      return .binary (← BinOp.ofJson? n (.string op.tag)) (← Expr.ofJson? n left.toJson)
        (← Expr.ofJson? n right.toJson)) = some (ExprKind.binary op left right)
    rw [op.read_tag n, left.read_toJson hleft hfin.1, right.read_toJson hright hfin.2]
    rfl
  | .call callee args, _, hn, _, hfin => by
    simp only [ExprKind.toJson, nesting_over_le, nesting_object_le, List.forall_mem_cons] at hn
    obtain ⟨_, rfl, n, rfl, -, hargs, -⟩ := hn
    change (do return .call callee (← Expr.listOfJson? n (.array (Expr.toJsonList args)))) =
      some (ExprKind.call callee args)
    rw [Expr.read_toJsonList args hargs hfin]
    rfl
  | .methodCall obj method ns args objTy, _, hn, _, hfin => by
    simp only [ExprKind.toJson, nesting_over_le, nesting_object_le, List.forall_mem_cons] at hn
    simp only [ExprKind.nodes, List.forall_mem_append] at hfin
    obtain ⟨_, rfl, n, rfl, hobj, -, -, hargs, hty, -⟩ := hn
    change (do
      return .methodCall (← Expr.ofJson? n obj.toJson) method
        (← optional Json.string? (some (ofOption .string ns)))
        (← Expr.listOfJson? n (.array (Expr.toJsonList args)))
        (← optional (Ty.ofJson? n) (some (ofOption Ty.toJson objTy)))) =
      some (ExprKind.methodCall obj method ns args objTy)
    rw [obj.read_toJson hobj hfin.1, Json.optional_string,
      Expr.read_toJsonList args hargs hfin.2, Ty.read_ofOption hty]
    rfl
  | .index obj index, _, hn, _, hfin => by
    simp only [ExprKind.toJson, nesting_over_le, nesting_object_le, List.forall_mem_cons] at hn
    simp only [ExprKind.nodes, List.forall_mem_append] at hfin
    obtain ⟨_, rfl, n, rfl, hobj, hindex, -⟩ := hn
    change (do return .index (← Expr.ofJson? n obj.toJson) (← Expr.ofJson? n index.toJson)) =
      some (ExprKind.index obj index)
    rw [obj.read_toJson hobj hfin.1, index.read_toJson hindex hfin.2]
    rfl
  | .field obj field objTy, _, hn, _, hfin => by
    simp only [ExprKind.toJson, nesting_over_le, nesting_object_le, List.forall_mem_cons] at hn
    obtain ⟨_, rfl, n, rfl, hobj, -, hty, -⟩ := hn
    change (do
      return .field (← Expr.ofJson? n obj.toJson) field
        (← optional (Ty.ofJson? n) (some (ofOption Ty.toJson objTy)))) =
      some (ExprKind.field obj field objTy)
    rw [obj.read_toJson hobj hfin, Ty.read_ofOption hty]
    rfl
  | .array items, _, hn, _, hfin => by
    obtain ⟨n, rfl, hitems⟩ := nesting_over_le.1 hn
    change (do return .array (← Expr.listOfJson? n (.array (Expr.toJsonList items)))) =
      some (ExprKind.array items)
    rw [Expr.read_toJsonList items hitems hfin]
    rfl
  | .aggregate target fields, _, hn, _, hfin => by
    simp only [ExprKind.toJson, nesting_over_le, nesting_object_le, List.forall_mem_cons] at hn
    obtain ⟨_, rfl, n, rfl, htarget, hfields, -⟩ := hn
    change (do
      return .aggregate (← AggregateTarget.ofJson? n target.toJson)
        (← FieldInit.listOfJson? n (.array (FieldInit.toJsonList fields)))) =
      some (ExprKind.aggregate target fields)
    rw [target.read_toJson htarget, FieldInit.read_toJsonList fields hfields hfin]
    rfl
  | .tuple items, _, hn, _, hfin => by
    obtain ⟨n, rfl, hitems⟩ := nesting_over_le.1 hn
    change (do return .tuple (← Expr.listOfJson? n (.array (Expr.toJsonList items)))) =
      some (ExprKind.tuple items)
    rw [Expr.read_toJsonList items hitems hfin]
    rfl
  | .variant _ _ none, _, hn, _, _ => by
    simp only [ExprKind.toJson, nesting_over_le, nesting_object_le] at hn
    obtain ⟨_, rfl, n, rfl, -⟩ := hn
    rfl
  | .variant enumName variant (some data), _, hn, _, hfin => by
    simp only [ExprKind.toJson, nesting_over_le, nesting_object_le, List.forall_mem_cons] at hn
    obtain ⟨_, rfl, n, rfl, -, -, hdata, -⟩ := hn
    change (do
      return .variant enumName variant
        (← (Expr.listOfJson? n (.array (Expr.toJsonList data))).map some)) =
      some (ExprKind.variant enumName variant (some data))
    rw [Expr.read_toJsonList data hdata hfin]
    rfl
  | .ternary cond thenExpr elseExpr, _, hn, _, hfin => by
    simp only [ExprKind.toJson, nesting_over_le, nesting_object_le, List.forall_mem_cons] at hn
    simp only [ExprKind.nodes, List.forall_mem_append] at hfin
    obtain ⟨_, rfl, n, rfl, hcond, hthen, helse, -⟩ := hn
    change (do
      return .ternary (← Expr.ofJson? n cond.toJson) (← Expr.ofJson? n thenExpr.toJson)
        (← Expr.ofJson? n elseExpr.toJson)) = some (ExprKind.ternary cond thenExpr elseExpr)
    rw [cond.read_toJson hcond hfin.1, thenExpr.read_toJson hthen hfin.2.1,
      elseExpr.read_toJson helse hfin.2.2]
    rfl
  | .cast expr ty, _, hn, _, hfin => by
    simp only [ExprKind.toJson, nesting_over_le, nesting_object_le, List.forall_mem_cons] at hn
    obtain ⟨_, rfl, n, rfl, hexpr, hty, -⟩ := hn
    change (do return .cast (← Expr.ofJson? n expr.toJson) (← Ty.ofJson? n ty.toJson)) =
      some (ExprKind.cast expr ty)
    rw [expr.read_toJson hexpr hfin, ty.read_toJson hty]
    rfl

/-- A list of expressions is read back. -/
theorem Expr.read_toJsonList : ∀ (es : List Expr) {n : Nat},
    (Json.array (Expr.toJsonList es)).nesting ≤ n →
    (∀ x ∈ Expr.nodesList es, x.kind.isFinite = true) →
    Expr.listOfJson? n (.array (Expr.toJsonList es)) = some es
  | [], _, hn, _ => by
    obtain ⟨n, rfl, -⟩ := nesting_array_le.1 hn
    rfl
  | e :: es, _, hn, hfin => by
    simp only [Expr.nodesList, List.forall_mem_append] at hfin
    obtain ⟨n, rfl, hitems⟩ := nesting_array_le.1 hn
    obtain ⟨he, hes⟩ := List.forall_mem_cons.1 hitems
    exact mapM_cons_eq_some (e.read_toJson he hfin.1)
      (Expr.read_toJsonList es (nesting_array_le.2 ⟨n, rfl, hes⟩) hfin.2)

/-- The fields of an aggregate literal are read back. -/
theorem FieldInit.read_toJsonList : ∀ (fields : List FieldInit) {n : Nat},
    (Json.array (FieldInit.toJsonList fields)).nesting ≤ n →
    (∀ x ∈ FieldInit.nodesList fields, x.kind.isFinite = true) →
    FieldInit.listOfJson? n (.array (FieldInit.toJsonList fields)) = some fields
  | [], _, hn, _ => by
    obtain ⟨n, rfl, -⟩ := nesting_array_le.1 hn
    rfl
  | ⟨name, value⟩ :: fields, _, hn, hfin => by
    simp only [FieldInit.nodesList, List.forall_mem_append] at hfin
    obtain ⟨_, rfl, hitems⟩ := nesting_array_le.1 hn
    simp only [FieldInit.toJsonList, List.forall_mem_cons, nesting_object_le] at hitems
    obtain ⟨⟨n, rfl, -, hvalue, -⟩, hfields⟩ := hitems
    have hhead : FieldInit.ofJson? (n + 1)
        (.object [("name", .string name), ("value", value.toJson)]) = some ⟨name, value⟩ := by
      change (do return ⟨name, ← Expr.ofJson? n value.toJson⟩) = some (FieldInit.mk name value)
      rw [value.read_toJson hvalue hfin.1]
      rfl
    exact mapM_cons_eq_some hhead
      (FieldInit.read_toJsonList fields (nesting_array_le.2 ⟨_, rfl, hfields⟩) hfin.2)

end

/-- An optional expression is read back. -/
theorem Expr.read_ofOption {e : Option Expr} {n : Nat} (hn : (ofOption Expr.toJson e).nesting ≤ n)
    (hfin : ∀ x ∈ Expr.nodes? e, x.kind.isFinite = true) :
    optional (Expr.ofJson? n) (some (ofOption Expr.toJson e)) = some e := by
  refine optional_ofOption (by cases n <;> rfl) fun a ha => ?_
  subst ha
  exact a.read_toJson (nesting_ofOption_le.1 hn a rfl) hfin

/-! ## Statements -/

/-- The nodes of a block are those of its statements. -/
theorem Block.nodes_eq : ∀ b : Block, b.nodes = Stmt.nodesList b.stmts
  | ⟨_, _⟩ => rfl

/-- `null` is no block, so an absent block is not read as one. -/
theorem Block.ofJson?_null (n : Nat) : Block.ofJson? n .null = none := by
  cases n <;> rfl

mutual

/-- A block is read back. -/
theorem Block.read_toJson : ∀ (b : Block) {n : Nat}, b.toJson.nesting ≤ n →
    (∀ x ∈ b.nodes, x.kind.isFinite = true) → Block.ofJson? n b.toJson = some b
  | ⟨span, stmts⟩, _, hn, hfin => by
    simp only [Block.toJson, nesting_object_le, List.forall_mem_cons] at hn
    obtain ⟨n, rfl, hspan, hstmts, -⟩ := hn
    change (do
      return ⟨← Span.ofJson? n span.toJson,
        ← Stmt.listOfJson? n (.array (Stmt.toJsonList stmts))⟩) = some (Block.mk span stmts)
    rw [span.read_toJson hspan, Stmt.read_toJsonList stmts hstmts hfin]
    rfl

/-- A statement is read back, with everything inside it. -/
theorem Stmt.read_toJson : ∀ (s : Stmt) {n : Nat}, s.toJson.nesting ≤ n →
    (∀ x ∈ s.nodes, x.kind.isFinite = true) → Stmt.ofJson? n s.toJson = some s
  | .letVar span name ty mutable init, _, hn, hfin => by
    simp only [Stmt.toJson, nesting_over_le, nesting_object_le, List.forall_mem_cons] at hn
    obtain ⟨_, rfl, n, rfl, hspan, -, hty, -, hinit, -⟩ := hn
    change (do
      return .letVar (← Span.ofJson? n span.toJson) name
        (← optional (Ty.ofJson? n) (some (ofOption Ty.toJson ty))) mutable
        (← optional (Expr.ofJson? n) (some (ofOption Expr.toJson init)))) =
      some (Stmt.letVar span name ty mutable init)
    rw [span.read_toJson hspan, Ty.read_ofOption hty, Expr.read_ofOption hinit hfin]
    rfl
  | .assign span target value, _, hn, hfin => by
    simp only [Stmt.toJson, nesting_over_le, nesting_object_le, List.forall_mem_cons] at hn
    simp only [Stmt.nodes, List.forall_mem_append] at hfin
    obtain ⟨_, rfl, n, rfl, hspan, htarget, hvalue, -⟩ := hn
    change (do
      return .assign (← Span.ofJson? n span.toJson) (← Expr.ofJson? n target.toJson)
        (← Expr.ofJson? n value.toJson)) = some (Stmt.assign span target value)
    rw [span.read_toJson hspan, target.read_toJson htarget hfin.1, value.read_toJson hvalue hfin.2]
    rfl
  | .ret span value, _, hn, hfin => by
    simp only [Stmt.toJson, nesting_over_le, nesting_object_le, List.forall_mem_cons] at hn
    obtain ⟨_, rfl, n, rfl, hspan, hvalue, -⟩ := hn
    change (do
      return .ret (← Span.ofJson? n span.toJson)
        (← optional (Expr.ofJson? n) (some (ofOption Expr.toJson value)))) =
      some (Stmt.ret span value)
    rw [span.read_toJson hspan, Expr.read_ofOption hvalue hfin]
    rfl
  | .ifElse span cond thenBlock elseBlock, _, hn, hfin => by
    simp only [Stmt.toJson, nesting_over_le, nesting_object_le, List.forall_mem_cons] at hn
    simp only [Stmt.nodes, List.forall_mem_append] at hfin
    obtain ⟨_, rfl, n, rfl, hspan, hcond, hthen, helse, -⟩ := hn
    change (do
      return .ifElse (← Span.ofJson? n span.toJson) (← Expr.ofJson? n cond.toJson)
        (← Block.ofJson? n thenBlock.toJson)
        (← optional (Block.ofJson? n) (some (Block.toJsonOption elseBlock)))) =
      some (Stmt.ifElse span cond thenBlock elseBlock)
    rw [span.read_toJson hspan, cond.read_toJson hcond hfin.1,
      thenBlock.read_toJson hthen hfin.2.1, Block.read_toJsonOption elseBlock helse hfin.2.2]
    rfl
  | .whileLoop span cond body, _, hn, hfin => by
    simp only [Stmt.toJson, nesting_over_le, nesting_object_le, List.forall_mem_cons] at hn
    simp only [Stmt.nodes, List.forall_mem_append] at hfin
    obtain ⟨_, rfl, n, rfl, hspan, hcond, hbody, -⟩ := hn
    change (do
      return .whileLoop (← Span.ofJson? n span.toJson) (← Expr.ofJson? n cond.toJson)
        (← Block.ofJson? n body.toJson)) = some (Stmt.whileLoop span cond body)
    rw [span.read_toJson hspan, cond.read_toJson hcond hfin.1, body.read_toJson hbody hfin.2]
    rfl
  | .forEach span var iterable body, _, hn, hfin => by
    simp only [Stmt.toJson, nesting_over_le, nesting_object_le, List.forall_mem_cons] at hn
    simp only [Stmt.nodes, List.forall_mem_append] at hfin
    obtain ⟨_, rfl, n, rfl, hspan, -, hiterable, hbody, -⟩ := hn
    change (do
      return .forEach (← Span.ofJson? n span.toJson) var (← Expr.ofJson? n iterable.toJson)
        (← Block.ofJson? n body.toJson)) = some (Stmt.forEach span var iterable body)
    rw [span.read_toJson hspan, iterable.read_toJson hiterable hfin.1,
      body.read_toJson hbody hfin.2]
    rfl
  | .switch span scrutinee cases, _, hn, hfin => by
    simp only [Stmt.toJson, nesting_over_le, nesting_object_le, List.forall_mem_cons] at hn
    simp only [Stmt.nodes, List.forall_mem_append] at hfin
    obtain ⟨_, rfl, n, rfl, hspan, hscrutinee, hcases, -⟩ := hn
    change (do
      return .switch (← Span.ofJson? n span.toJson) (← Expr.ofJson? n scrutinee.toJson)
        (← SwitchCase.listOfJson? n (.array (SwitchCase.toJsonList cases)))) =
      some (Stmt.switch span scrutinee cases)
    rw [span.read_toJson hspan, scrutinee.read_toJson hscrutinee hfin.1,
      SwitchCase.read_toJsonList cases hcases hfin.2]
    rfl
  | .breakLoop span, _, hn, _ => by
    obtain ⟨n, rfl, hspan⟩ := nesting_over_le.1 hn
    change (do return .breakLoop (← Span.ofJson? n span.toJson)) = some (Stmt.breakLoop span)
    rw [span.read_toJson hspan]
    rfl
  | .continueLoop span, _, hn, _ => by
    obtain ⟨n, rfl, hspan⟩ := nesting_over_le.1 hn
    change (do return .continueLoop (← Span.ofJson? n span.toJson)) =
      some (Stmt.continueLoop span)
    rw [span.read_toJson hspan]
    rfl
  | .expr e, _, hn, hfin => by
    obtain ⟨n, rfl, he⟩ := nesting_over_le.1 hn
    change (do return .expr (← Expr.ofJson? n e.toJson)) = some (Stmt.expr e)
    rw [e.read_toJson he hfin]
    rfl
  | .block b, _, hn, hfin => by
    obtain ⟨n, rfl, hb⟩ := nesting_over_le.1 hn
    change (do return .block (← Block.ofJson? n b.toJson)) = some (Stmt.block b)
    rw [b.read_toJson hb hfin]
    rfl

/-- A list of statements is read back. -/
theorem Stmt.read_toJsonList : ∀ (ss : List Stmt) {n : Nat},
    (Json.array (Stmt.toJsonList ss)).nesting ≤ n →
    (∀ x ∈ Stmt.nodesList ss, x.kind.isFinite = true) →
    Stmt.listOfJson? n (.array (Stmt.toJsonList ss)) = some ss
  | [], _, hn, _ => by
    obtain ⟨n, rfl, -⟩ := nesting_array_le.1 hn
    rfl
  | s :: ss, _, hn, hfin => by
    simp only [Stmt.nodesList, List.forall_mem_append] at hfin
    obtain ⟨n, rfl, hitems⟩ := nesting_array_le.1 hn
    obtain ⟨hs, hss⟩ := List.forall_mem_cons.1 hitems
    exact mapM_cons_eq_some (s.read_toJson hs hfin.1)
      (Stmt.read_toJsonList ss (nesting_array_le.2 ⟨n, rfl, hss⟩) hfin.2)

/-- An optional block is read back. -/
theorem Block.read_toJsonOption : ∀ (b : Option Block) {n : Nat},
    (Block.toJsonOption b).nesting ≤ n → (∀ x ∈ Block.nodes? b, x.kind.isFinite = true) →
    optional (Block.ofJson? n) (some (Block.toJsonOption b)) = some b
  | none, _, _, _ => rfl
  | some b, n, hn, hfin => by
    have hb : ∀ a ∈ some b, Block.ofJson? n a.toJson = some a := by
      rintro _ ⟨⟩
      exact b.read_toJson hn hfin
    exact optional_ofOption (Block.ofJson?_null n) hb

/-- The cases of a switch are read back. -/
theorem SwitchCase.read_toJsonList : ∀ (cases : List SwitchCase) {n : Nat},
    (Json.array (SwitchCase.toJsonList cases)).nesting ≤ n →
    (∀ x ∈ SwitchCase.nodesList cases, x.kind.isFinite = true) →
    SwitchCase.listOfJson? n (.array (SwitchCase.toJsonList cases)) = some cases
  | [], _, hn, _ => by
    obtain ⟨n, rfl, -⟩ := nesting_array_le.1 hn
    rfl
  | ⟨span, value, body, fallthrough⟩ :: cases, _, hn, hfin => by
    simp only [SwitchCase.nodesList, List.forall_mem_append] at hfin
    obtain ⟨_, rfl, hitems⟩ := nesting_array_le.1 hn
    simp only [SwitchCase.toJsonList, List.forall_mem_cons, nesting_object_le] at hitems
    obtain ⟨⟨n, rfl, hspan, hvalue, hbody, -⟩, hcases⟩ := hitems
    have hhead : SwitchCase.ofJson? (n + 1) (.object [("span", span.toJson),
        ("value", ofOption Expr.toJson value), ("body", .array (Stmt.toJsonList body)),
        ("fallthrough", .bool fallthrough)]) = some ⟨span, value, body, fallthrough⟩ := by
      change (do
        return ⟨← Span.ofJson? n span.toJson,
          ← optional (Expr.ofJson? n) (some (ofOption Expr.toJson value)),
          ← Stmt.listOfJson? n (.array (Stmt.toJsonList body)), fallthrough⟩) =
        some (SwitchCase.mk span value body fallthrough)
      rw [span.read_toJson hspan, Expr.read_ofOption hvalue hfin.1,
        Stmt.read_toJsonList body hbody hfin.2.1]
      rfl
    exact mapM_cons_eq_some hhead
      (SwitchCase.read_toJsonList cases (nesting_array_le.2 ⟨_, rfl, hcases⟩) hfin.2.2)

end

/-! ## Declarations -/

/-- The declaration of a field is read back. -/
theorem FieldDecl.read_toJson (f : FieldDecl) {n : Nat} (hn : f.toJson.nesting ≤ n) :
    FieldDecl.ofJson? n f.toJson = some f := by
  simp only [FieldDecl.toJson, nesting_object_le, List.forall_mem_cons] at hn
  obtain ⟨n, rfl, -, hty, -⟩ := hn
  change (do return ⟨f.name, ← Ty.ofJson? n f.ty.toJson⟩) = some f
  rw [f.ty.read_toJson hty]
  rfl

/-- A list of declared fields is read back. -/
theorem FieldDecl.read_list {fields : List FieldDecl} {n : Nat}
    (hn : (Json.array (fields.map FieldDecl.toJson)).nesting ≤ n) :
    Json.listOf FieldDecl.ofJson? n (.array (fields.map FieldDecl.toJson)) = some fields :=
  listOf_written hn fun f _ _ => f.read_toJson

/-- The declaration of a structure is read back. -/
theorem StructDecl.read_toJson (s : StructDecl) {n : Nat} (hn : s.toJson.nesting ≤ n) :
    StructDecl.ofJson? n s.toJson = some s := by
  simp only [StructDecl.toJson, nesting_object_le, List.forall_mem_cons] at hn
  obtain ⟨n, rfl, hspan, -, hfields, hderives, -⟩ := hn
  change (do
    return ⟨← Span.ofJson? n s.span.toJson, s.name,
      ← Json.listOf FieldDecl.ofJson? n (.array (s.fields.map FieldDecl.toJson)),
      ← Json.stringsAt? n (.ofStrings s.derives)⟩) = some s
  rw [s.span.read_toJson hspan, FieldDecl.read_list hfields, stringsAt?_ofStrings hderives]
  rfl

/-- The shape of a variant is read back. -/
theorem VariantShape.read_toJson (shape : VariantShape) {n : Nat}
    (hn : shape.toJson.nesting ≤ n) : VariantShape.ofJson? n shape.toJson = some shape := by
  cases shape with
  | unit => cases n <;> rfl
  | tuple tys =>
    obtain ⟨n, rfl, htys⟩ := nesting_over_le.1 hn
    change (Json.listOf Ty.ofJson? n (.array (tys.map Ty.toJson))).map VariantShape.tuple = _
    rw [listOf_written htys fun t _ _ => t.read_toJson]
    rfl
  | struct fields =>
    obtain ⟨n, rfl, hfields⟩ := nesting_over_le.1 hn
    change (Json.listOf FieldDecl.ofJson? n (.array (fields.map FieldDecl.toJson))).map
      VariantShape.struct = _
    rw [FieldDecl.read_list hfields]
    rfl

/-- The declaration of a variant is read back. -/
theorem VariantDecl.read_toJson (v : VariantDecl) {n : Nat} (hn : v.toJson.nesting ≤ n) :
    VariantDecl.ofJson? n v.toJson = some v := by
  simp only [VariantDecl.toJson, nesting_object_le, List.forall_mem_cons] at hn
  obtain ⟨n, rfl, -, hshape, -⟩ := hn
  change (do return ⟨v.name, ← VariantShape.ofJson? n v.shape.toJson⟩) = some v
  rw [v.shape.read_toJson hshape]
  rfl

/-- The declaration of an enumeration is read back. -/
theorem EnumDecl.read_toJson (e : EnumDecl) {n : Nat} (hn : e.toJson.nesting ≤ n) :
    EnumDecl.ofJson? n e.toJson = some e := by
  simp only [EnumDecl.toJson, nesting_object_le, List.forall_mem_cons] at hn
  obtain ⟨n, rfl, hspan, -, hvariants, hderives, -⟩ := hn
  change (do
    return ⟨← Span.ofJson? n e.span.toJson, e.name,
      ← Json.listOf VariantDecl.ofJson? n (.array (e.variants.map VariantDecl.toJson)),
      ← Json.stringsAt? n (.ofStrings e.derives)⟩) = some e
  rw [e.span.read_toJson hspan, listOf_written hvariants fun v _ _ => v.read_toJson,
    stringsAt?_ofStrings hderives]
  rfl

/-- The declaration of an alias is read back. -/
theorem AliasDecl.read_toJson (a : AliasDecl) {n : Nat} (hn : a.toJson.nesting ≤ n) :
    AliasDecl.ofJson? n a.toJson = some a := by
  simp only [AliasDecl.toJson, nesting_object_le, List.forall_mem_cons] at hn
  obtain ⟨n, rfl, hspan, -, htarget, -⟩ := hn
  change (do
    return ⟨← Span.ofJson? n a.span.toJson, a.name, ← Ty.ofJson? n a.target.toJson⟩) = some a
  rw [a.span.read_toJson hspan, a.target.read_toJson htarget]
  rfl

/-- A parameter is read back. -/
theorem Param.read_toJson (p : Param) {n : Nat} (hn : p.toJson.nesting ≤ n) :
    Param.ofJson? n p.toJson = some p := by
  simp only [Param.toJson, nesting_object_le, List.forall_mem_cons] at hn
  obtain ⟨n, rfl, -, hty, -⟩ := hn
  change (do return ⟨p.name, ← Ty.ofJson? n p.ty.toJson, p.mutable⟩) = some p
  rw [p.ty.read_toJson hty]
  rfl

/-- A function is read back, if the numbers in its body are finite. -/
theorem FunctionDecl.read_toJson (f : FunctionDecl) {n : Nat} (hn : f.toJson.nesting ≤ n)
    (hfin : ∀ x ∈ f.nodes, x.kind.isFinite = true) : FunctionDecl.ofJson? n f.toJson = some f := by
  have hnodes : f.body.nodes = f.nodes := f.body.nodes_eq
  simp only [FunctionDecl.toJson, nesting_object_le, List.forall_mem_cons] at hn
  obtain ⟨n, rfl, hspan, -, hparams, hret, hbody, -, -⟩ := hn
  change (do
    return ⟨← Span.ofJson? n f.span.toJson, f.name,
      ← Json.listOf Param.ofJson? n (.array (f.params.map Param.toJson)),
      ← Ty.ofJson? n f.ret.toJson, ← Block.ofJson? n f.body.toJson, f.isPublic,
      ← optional (Receiver.ofJson? n) (some (ofOption Receiver.toJson f.receiver))⟩) = some f
  rw [f.span.read_toJson hspan, listOf_written hparams fun p _ _ => p.read_toJson,
    f.ret.read_toJson hret, f.body.read_toJson hbody (hnodes ▸ hfin),
    optional_ofOption (by cases n <;> rfl) fun r _ => r.read_toJson n]
  rfl

/-- An implementation is read back, if the numbers in its methods are finite. -/
theorem ImplBlock.read_toJson (b : ImplBlock) {n : Nat} (hn : b.toJson.nesting ≤ n)
    (hfin : ∀ f ∈ b.methods, ∀ x ∈ f.nodes, x.kind.isFinite = true) :
    ImplBlock.ofJson? n b.toJson = some b := by
  simp only [ImplBlock.toJson, nesting_object_le, List.forall_mem_cons] at hn
  obtain ⟨n, rfl, hspan, -, hmethods, -⟩ := hn
  change (do
    return ⟨← Span.ofJson? n b.span.toJson, b.target,
      ← Json.listOf FunctionDecl.ofJson? n (.array (b.methods.map FunctionDecl.toJson))⟩) = some b
  rw [b.span.read_toJson hspan,
    listOf_written hmethods fun f hf _ hm => f.read_toJson hm (hfin f hf)]
  rfl

/-- The bodies of a declaration. -/
def Decl.bodies : Decl → List FunctionDecl
  | .function f => [f]
  | .impl b => b.methods
  | _ => []

/-- The bodies of a declaration are bodies of the program. -/
theorem Decl.mem_bodies {p : Program} {d : Decl} (hd : d ∈ p.decls) {f : FunctionDecl}
    (hf : f ∈ d.bodies) : f ∈ p.bodies := by
  rw [Program.bodies, List.mem_append, List.mem_flatMap, Program.impls, Program.functions]
  cases d with
  | function g =>
    cases List.mem_singleton.1 hf
    exact .inr (List.mem_filterMap.2 ⟨_, hd, rfl⟩)
  | impl b => exact .inl ⟨b, List.mem_filterMap.2 ⟨_, hd, rfl⟩, hf⟩
  | _ => cases hf

/-- A declaration is read back, if the numbers in its bodies are finite. -/
theorem Decl.read_toJson (d : Decl) {n : Nat} (hn : d.toJson.nesting ≤ n)
    (hfin : ∀ f ∈ d.bodies, ∀ x ∈ f.nodes, x.kind.isFinite = true) :
    Decl.ofJson? n d.toJson = some d := by
  cases d with
  | struct s =>
    obtain ⟨n, rfl, hs⟩ := nesting_over_le.1 hn
    change (do return .struct (← StructDecl.ofJson? n s.toJson)) = some (Decl.struct s)
    rw [s.read_toJson hs]
    rfl
  | enum e =>
    obtain ⟨n, rfl, he⟩ := nesting_over_le.1 hn
    change (do return .enum (← EnumDecl.ofJson? n e.toJson)) = some (Decl.enum e)
    rw [e.read_toJson he]
    rfl
  | «alias» a =>
    obtain ⟨n, rfl, ha⟩ := nesting_over_le.1 hn
    change (do return .alias (← AliasDecl.ofJson? n a.toJson)) = some (Decl.alias a)
    rw [a.read_toJson ha]
    rfl
  | function f =>
    obtain ⟨n, rfl, hf⟩ := nesting_over_le.1 hn
    change (do return .function (← FunctionDecl.ofJson? n f.toJson)) = some (Decl.function f)
    rw [f.read_toJson hf (hfin f (List.mem_singleton.2 rfl))]
    rfl
  | impl b =>
    obtain ⟨n, rfl, hb⟩ := nesting_over_le.1 hn
    change (do return .impl (← ImplBlock.ofJson? n b.toJson)) = some (Decl.impl b)
    rw [b.read_toJson hb hfin]
    rfl

/-- **A written program reads back.** Wherever its number literals are finite and its written form
is not nested deeper than the reader goes, the reader gives back the very program. -/
theorem Program.ofJson?_toJson (p : Program) {n : Nat} (hn : p.toJson.nesting ≤ n)
    (hfin : ∀ f ∈ p.bodies, ∀ x ∈ f.nodes, x.kind.isFinite = true) :
    Program.ofJson? n p.toJson = some p := by
  simp only [Program.toJson, nesting_object_le, List.forall_mem_cons] at hn
  obtain ⟨n, rfl, hdecls, -⟩ := hn
  change (do return ⟨← Json.listOf Decl.ofJson? n (.array (p.decls.map Decl.toJson))⟩) = some p
  rw [listOf_written hdecls fun d hd _ hm => d.read_toJson hm fun f hf => hfin f (d.mem_bodies hd hf)]
  rfl

/-- What is not finite is written as `null`, which is no number. -/
example : Literal.ofJson? 1 (Literal.number ⟨0x7ff8000000000000⟩).toJson = none := by decide

/-- A program with a declaration of each kind, optional fields present and absent, and the largest
finite number. -/
def Program.writtenSample : Program :=
  let x := Expr.ofKind (.ident "x")
  let largest := Expr.ofKind (.literal (.number ⟨0x7fefffffffffffff⟩))
  let shape := Ty.fn [.ref (.seq .f64) true, .tuple []] (.optional (.enum "Shape"))
  let fold := Expr.mk ⟨7, 3⟩
    (.methodCall x "fold" (some "Math") [largest, .ofKind (.variant "Shape" "Dot" none)]
      (some shape)) (some .f64)
  { decls := [
      .alias ⟨.zero, "Fold", shape⟩,
      .struct ⟨⟨0, 9⟩, "Point", [⟨"x", .f64⟩], ["Debug"]⟩,
      .enum ⟨.zero, "Shape", [⟨"Dot", .unit⟩, ⟨"Line", .tuple [.aggregate "Point"]⟩,
        ⟨"Box", .struct [⟨"side", .f64⟩]⟩], []⟩,
      .impl ⟨.zero, "Point", [⟨.zero, "run", [⟨"x", shape, true⟩], .void, .ofStmts [
        .letVar .zero "y" none true none,
        .letVar .zero "z" (some .f64) false (some fold),
        .switch .zero x [⟨.zero, none, [.breakLoop ⟨1, 2⟩], true⟩],
        .ifElse .zero (.ofKind (.variant "Shape" "Line" (some [x]))) (.ofStmts []) none,
        .ret .zero (some (.ofKind (.aggregate .pending [⟨"x", largest⟩])))], false,
        some .byMut⟩]⟩,
      .function ⟨.zero, "main", [], .void, .ofStmts [.ret .zero none], true, none⟩] }

/-- A program with one declaration of each kind is read back. -/
theorem Program.writtenSample_ofJson? :
    writtenSample.toJson.nesting = 20 ∧
      Program.ofJson? Json.nestingLimit writtenSample.toJson = some writtenSample := by
  have hnesting : writtenSample.toJson.nesting = 20 := by decide +kernel
  refine ⟨hnesting, ofJson?_toJson _ ?_ (by decide +kernel)⟩
  rw [hnesting, Json.nestingLimit]
  omega

end Oxidize
