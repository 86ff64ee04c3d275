import Oxidize.Proofs.Emit.Name
import Oxidize.Proofs.Emit.Reads
import Oxidize.Proofs.Grammar.Clones
import Oxidize.Proofs.Grammar.Numeral

/-!
# Rendering keeps the tree of operators

An expression of identifiers, numbers, truth values, operators, numeric casts and conditionals has a
tree of operators (`Expr.HasTree`). Rendering it writes text from which the grammar of the emitted
source derives that tree and no other (`Expr.render_derives_iff`), as long as no read is cloned.

`Expresses p n text t` says that a text, apart from clones, is an expression of level `n` with the tree
`t`, and that it has no clones if `p` holds; there is one rule for each way of writing an operator. What
decides about parentheses is `Expr.level`, the level of an expression that is written without any: the
two rules for operands (`Expr.HasTree.operand` and `Expr.HasTree.binaryOperand`) say that an operand is
wrapped wherever its level is too loose.
-/

namespace Oxidize

open Source

/-! ## Texts of expressions -/

namespace Source

/-- The text is an expression of the level with the tree, apart from clones. There are none if `p`
holds. -/
def Expresses (p : Prop) (n : ℕ) (text : String) (t : Tree) : Prop :=
  ∃ ts us, Spells text.toList ts ∧ Clones p ts us ∧ Derives n us t

/-- The symbol of a binary operator is read as that operator. -/
theorem binOp?_symbol (op : BinOp) : binOp? op.symbol = some op := by
  cases op <;> rfl

/-- The symbol of a unary operator is read as that operator. -/
theorem unaryOp?_symbol (op : UnaryOp) : unaryOp? op.symbol = some op := by
  cases op <;> rfl

/-- The text of a truth value is read as that value. -/
theorem truth?_boolText (b : Bool) : truth? (boolText b) = some b := by
  cases b <;> rfl

/-- The text of a numeric type is read as that type. -/
theorem numericType?_text {p : Prim} (hp : p.isNumeric = true) :
    numericType? (p.text .loc) = some p := by
  cases p with
  | bool | void | ownedText | viewText => cases hp
  | _ => rfl

/-- The text of a numeric type is an identifier. -/
theorem isIdentifier_text {p : Prim} (hp : p.isNumeric = true) :
    Name.isIdentifier (p.text .loc) = true := by
  cases p with
  | bool | void | ownedText | viewText => cases hp
  | _ => rfl

/-- The levels of the grammar are the precedences that rendering puts parentheses by. -/
theorem level_eq_precedence (op : BinOp) : level op = op.precedence := by
  cases op <;> rfl

/-- The comparisons are the operators of the third level. -/
theorem level_eq_three_iff (op : BinOp) : level op = 3 ↔ op.isComparison = true := by
  cases op <;> decide

namespace Expresses

variable {p q : Prop} {m n : ℕ} {text text' text'' : String} {t t' t'' : Tree}

/-- A text without clones. -/
theorem of_spells {ts : List Token} (h : Spells text.toList ts) (hd : Derives n ts t) :
    Expresses p n text t :=
  ⟨ts, ts, h, .refl p ts, hd⟩

/-- What is free of clones under a condition is so under a stronger one. -/
theorem mono (h : Expresses p n text t) (hqp : q → p) : Expresses q n text t := by
  obtain ⟨ts, us, hs, hc, hd⟩ := h
  exact ⟨ts, us, hs, hc.mono hqp, hd⟩

/-- An expression of a level is one of every looser level. -/
theorem looser (h : Expresses p n text t) (hmn : m ≤ n) : Expresses p m text t := by
  obtain ⟨ts, us, hs, hc, hd⟩ := h
  exact ⟨ts, us, hs, hc, hd.looser hmn⟩

/-- A name that is cloned. -/
theorem clone (h : Expresses p n text t) (hp : ¬p) : Expresses p n (text ++ ".clone()") t := by
  obtain ⟨ts, us, hs, hc, hd⟩ := h
  have hclone : Clones p (callTokens "clone") [] := .clone hp .nil
  refine ⟨ts ++ callTokens "clone", us, ?_, by simpa using hc.append hclone, hd⟩
  simpa using hs.call "clone".toList (by decide)

/-- An expression in parentheses is an operand. -/
theorem paren (h : Expresses p 1 text t) : Expresses p 8 ("(" ++ text ++ ")") t := by
  obtain ⟨ts, us, hs, hc, hd⟩ := h
  refine ⟨_, _, ?_, (hc.append (.refl p [.mark ")"])).cons (.mark "("), hd.paren⟩
  simpa using hs.paren

/-- A unary operator in front of an operand. -/
theorem unary (op : UnaryOp) (h : Expresses p 7 text t) :
    Expresses p 7 (op.symbol ++ text) (.unary op t) := by
  obtain ⟨ts, us, hs, hc, hd⟩ := h
  refine ⟨_, _, ?_, hc.cons (.mark op.symbol), hd.unary (unaryOp?_symbol op)⟩
  simpa using hs.unary op

/-- A binary operator between operands of its levels. -/
theorem binary (op : BinOp) (h : Expresses p (leftLevel op) text t)
    (h' : Expresses p (level op + 1) text' t') :
    Expresses p (level op) (text ++ " " ++ op.symbol ++ " " ++ text') (.binary op t t') := by
  obtain ⟨ts, us, hs, hc, hd⟩ := h
  obtain ⟨ts', us', hs', hc', hd'⟩ := h'
  refine ⟨_, _, ?_, hc.append (hc'.cons (.mark op.symbol)), .binary (binOp?_symbol op) hd hd'⟩
  simpa using hs.binary op hs'

/-- A cast to a numeric type. -/
theorem cast {target : Prim} (h : Expresses p 6 text t) (htarget : target.isNumeric = true) :
    Expresses p 6 (text ++ " as " ++ target.text .loc) (.cast t target) := by
  obtain ⟨ts, us, hs, hc, hd⟩ := h
  refine ⟨_, _, ?_, hc.append (.refl p [.word "as", .word (target.text .loc)]),
    .cast (numericType?_text htarget) hd⟩
  simpa using hs.cast (Name.spells_of_isIdentifier (isIdentifier_text htarget))

/-- A conditional expression is an operand. -/
theorem ifElse (h : Expresses p 1 text t) (h' : Expresses p 1 text' t')
    (h'' : Expresses p 1 text'' t'') :
    Expresses p 8 ("if " ++ text ++ " \x7b " ++ text' ++ " \x7d else \x7b " ++ text'' ++ " \x7d")
      (.ifElse t t' t'') := by
  obtain ⟨ts, us, hs, hc, hd⟩ := h
  obtain ⟨ts', us', hs', hc', hd'⟩ := h'
  obtain ⟨ts'', us'', hs'', hc'', hd''⟩ := h''
  have helse := ((hc''.append (.refl p [.mark "\x7d"])).cons (.mark "\x7b")).cons (.word "else")
  have hthen := (hc'.append (helse.cons (.mark "\x7d"))).cons (.mark "\x7b")
  refine ⟨_, _, ?_, (hc.append hthen).cons (.word "if"), ?_⟩
  · simpa using hs.ifElse hs' hs''
  · simpa using Derives.ifElse hd hd' hd''

/-- Text in parentheses where the level asks for them. -/
theorem parenthesizeIf {b : Bool} (h : Expresses p n text t) (hn : 1 ≤ n) (hm : m ≤ 8)
    (hb : b = false → m ≤ n) : Expresses p m (parenthesizeIf b text) t := by
  cases b with
  | true => exact (h.looser hn).paren.looser hm
  | false => exact h.looser (hb rfl)

/-- The one tree that the grammar derives from the text. -/
theorem derives_iff (h : Expresses p n text t) (hp : p) :
    ∃ ts, tokens? text = some ts ∧ ∀ t', Derives n ts t' ↔ t' = t := by
  obtain ⟨ts, us, hs, hc, hd⟩ := h
  cases hc.eq hp
  refine ⟨ts, hs.tokens?_eq, fun t' => ⟨fun h' => h'.unique hd, ?_⟩⟩
  rintro rfl
  exact hd

end Expresses

end Source

/-! ## Expressions with a tree -/

/-- The tree of an expression of operators: a variable stands for the name that is written for it,
and a cast for the type that its target resolves to. Text is not joined, so that addition is an
operator. -/
inductive Expr.HasTree (r : Registry) : Expr → Tree → Prop
  | ident {span : Span} {name : String} {ty : Option Ty} :
    Name.isIdentifier name = true → HasTree r ⟨span, .ident name, ty⟩ (.name (Name.value name))
  | number {span : Span} {x : Binary64} {ty : Option Ty} :
    x.isFinite = true → x.isZero = true ∨ x.isNegative = false →
      HasTree r ⟨span, .literal (.number x), ty⟩ (.number x.unsignedZero)
  | bool {span : Span} {b : Bool} {ty : Option Ty} :
    HasTree r ⟨span, .literal (.bool b), ty⟩ (.bool b)
  | unary {span : Span} {op : UnaryOp} {e : Expr} {ty : Option Ty} {t : Tree} :
    HasTree r e t → HasTree r ⟨span, .unary op e, ty⟩ (.unary op t)
  | binary {span : Span} {op : BinOp} {left right : Expr} {ty : Option Ty} {t t' : Tree} :
    op.joinsText left right = false → HasTree r left t → HasTree r right t' →
      HasTree r ⟨span, .binary op left right, ty⟩ (.binary op t t')
  | ternary {span : Span} {c a e : Expr} {ty : Option Ty} {t t' t'' : Tree} :
    HasTree r c t → HasTree r a t' → HasTree r e t'' →
      HasTree r ⟨span, .ternary c a e, ty⟩ (.ifElse t t' t'')
  | cast {span : Span} {e : Expr} {target : Ty} {ty : Option Ty} {p : Prim} {t : Tree} :
    r.normalize target = .prim p → p.isNumeric = true → HasTree r e t →
      HasTree r ⟨span, .cast e target, ty⟩ (.cast t p)

/-- The level of the text of an expression, written without parentheses. -/
def Expr.level (e : Expr) : ℕ :=
  match e.kind with
  | .binary op _ _ => Source.level op
  | .cast _ _ => 6
  | .unary _ _ => 7
  | _ => 8

/-- Every expression has a level of the grammar. -/
theorem Expr.level_pos (e : Expr) : 1 ≤ e.level := by
  rw [level]
  split
  next op _ _ _ => cases op <;> decide
  all_goals decide

section operands

variable {p : Prop} {r : Registry} {e : Expr} {t : Tree} {code : String}

/-- `null` has no tree. -/
theorem Expr.HasTree.isNull (h : e.HasTree r t) : e.isNull = false := by
  cases h <;> rfl

/-- The operand of a unary operator or cast. -/
theorem Expr.HasTree.operand (h : e.HasTree r t) (hcode : Expresses p e.level code t) :
    Expresses p 7 (operandText e code) t := by
  refine hcode.parenthesizeIf e.level_pos (by decide) ?_
  cases h with
  | binary | cast | ternary =>
    intro hwrap
    cases hwrap
  | ident | number | bool => exact fun _ => (by decide : 7 ≤ 8)
  | unary => exact fun _ => Nat.le_refl 7

/-- An operand of a binary operator. -/
theorem Expr.HasTree.binaryOperand (h : e.HasTree r t) (op : BinOp) (isRight : Bool)
    (hcode : Expresses p e.level code t) :
    Expresses p (if isRight then Source.level op + 1 else leftLevel op)
      (binaryOperandText op isRight e code) t := by
  have hlevel := level_le op
  have hsix : (if isRight then Source.level op + 1 else leftLevel op) ≤ 6 := by
    rw [leftLevel]
    split_ifs <;> omega
  refine hcode.parenthesizeIf e.level_pos (by omega) ?_
  cases h with
  | cast | ternary =>
    intro hwrap
    cases hwrap
  | ident | number | bool => exact fun _ => le_trans hsix (by decide : 6 ≤ 8)
  | unary => exact fun _ => le_trans hsix (by decide : 6 ≤ 7)
  | @binary _ op' left right _ _ _ hjoins =>
    -- Without parentheses the operator inside binds as tight as its side asks for.
    intro hwrap
    change _ ≤ Source.level op'
    simp only [hjoins, Bool.not_false, Bool.true_and, Bool.or_eq_false_iff, decide_eq_false_iff_not,
      Bool.and_eq_false_iff, beq_eq_false_iff_ne, ← level_eq_precedence] at hwrap
    obtain ⟨⟨hlt, hright⟩, hcomparison⟩ := hwrap
    cases isRight with
    | true =>
      have hne := hright.resolve_left (by decide)
      rw [if_pos rfl]
      omega
    | false =>
      rw [if_neg Bool.false_ne_true, leftLevel]
      split
      next hop =>
        have hne : Source.level op' ≠ 3 := by
          rw [Ne, level_eq_three_iff, Bool.not_eq_true]
          exact hcomparison.resolve_right (by simp [(level_eq_three_iff op).1 hop])
        omega
      next => omega

end operands

/-! ## Renderings that succeed -/

/-- The rendering succeeds. The property of its result may depend on whether no read was cloned. -/
def Rendering.Returns {α : Type} (x : Rendering α) (P : Prop → α → Prop) : Prop :=
  ∀ reads, ∃ a new, x.run reads = .ok (a, reads ++ new) ∧ P (∀ rd ∈ new, rd.cloned = false) a

namespace Rendering.Returns

variable {α β : Type} {x : Rendering α} {f : α → Rendering β} {P : Prop → α → Prop}
  {Q : Prop → β → Prop}

/-- A result that is given is returned, and no read was cloned for it. -/
theorem pure {a : α} (h : ∀ p, P p a) : Rendering.Returns (Pure.pure a) P :=
  fun reads => ⟨a, [], by rw [List.append_nil]; rfl, h _⟩

/-- Nothing is cloned in two steps if nothing is in either. -/
theorem bind (hx : Rendering.Returns x P)
    (hf : ∀ a, Rendering.Returns (f a) fun q b => ∀ p, P p a → Q (p ∧ q) b) :
    Rendering.Returns (x >>= f) Q := by
  intro reads
  obtain ⟨a, new, hrun, ha⟩ := hx reads
  obtain ⟨b, new', hrun', hb⟩ := hf a (reads ++ new)
  refine ⟨b, new ++ new', ?_, ?_⟩
  · rw [StateT.run_bind, hrun, ← List.append_assoc]
    exact hrun'
  · rw [List.forall_mem_append]
    exact hb _ ha

end Rendering.Returns

section render

variable {cx : FnContext} {e : Expr} {t : Tree}

/-- A read is written as the name, which is cloned only if the read is. -/
theorem readVar_returns (cx : FnContext) (b : Bindings) {name : String}
    (hname : Name.isIdentifier name = true) (pos : ReadPosition) :
    Rendering.Returns (readVar cx b name pos) (Expresses · 8 · (.name (Name.value name))) := by
  have hbare : ∀ p, Expresses p 8 (Name.value name) (.name (Name.value name)) := fun p =>
    .of_spells (Name.value_spells hname) (.name (Name.isName_value hname))
  intro reads
  obtain ⟨text, reads', hrun, ⟨rfl, rfl⟩ | ⟨rd, rfl, -, -, rfl⟩⟩ := readVar_text cx b name pos reads
  · exact ⟨_, [], by rw [hrun, List.append_nil], hbare _⟩
  · refine ⟨_, [rd], hrun, ?_⟩
    split
    next hcloned =>
      refine (hbare _).clone fun hnot => ?_
      rw [hnot rd (List.mem_singleton_self rd)] at hcloned
      cases hcloned
    next => exact hbare _

/-- Rendering an expression with a tree writes, apart from clones, an expression with that tree. -/
theorem Expr.HasTree.render_returns (h : e.HasTree cx.registry t) (b : Bindings)
    (pos : ReadPosition) : Rendering.Returns (e.render cx b pos) (Expresses · e.level · t) := by
  induction h generalizing pos with
  | ident hname =>
    rw [Expr.render]
    exact readVar_returns cx b hname pos
  | number hfinite hsign =>
    rw [Expr.render]
    exact .pure fun _ => .of_spells (Binary64.text_spells hfinite hsign)
      (.number (Binary64.numeral?_text hfinite hsign))
  | @bool _ v =>
    rw [Expr.render]
    refine .pure fun _ => .of_spells (Name.spells_of_isIdentifier ?_) (.bool (truth?_boolText v))
    cases v <;> rfl
  | unary h ih =>
    rw [Expr.render]
    exact (ih .value).bind fun code => .pure fun _ _ hcode =>
      ((h.operand hcode).unary _).mono And.left
  | binary hjoins h h' ih ih' =>
    rw [Expr.render]
    simp only [hjoins, h.isNull, h'.isNull, Bool.and_false, Bool.false_eq_true, if_false]
    exact (ih _).bind fun code => (ih' _).bind fun code' => .pure fun _ _ hcode' _ hcode =>
      .binary _ ((h.binaryOperand _ false hcode).mono And.left)
        ((h'.binaryOperand _ true hcode').mono fun hp => hp.2.1)
  | ternary h h' h'' ih ih' ih'' =>
    rw [Expr.render]
    exact (ih _).bind fun _ => (ih' _).bind fun _ => (ih'' _).bind fun _ =>
      .pure fun _ _ helse _ hthen _ hcond => .ifElse
        ((hcond.mono And.left).looser (Expr.level_pos _))
        ((hthen.mono fun hp => hp.2.1).looser (Expr.level_pos _))
        ((helse.mono fun hp => hp.2.2.1).looser (Expr.level_pos _))
  | cast htarget hp h ih =>
    rw [Expr.render]
    refine (ih _).bind fun code => .pure fun _ _ hcode => ?_
    rw [htarget, castText, if_pos hp]
    · exact (((h.operand hcode).looser (by decide)).cast hp).mono And.left
    · rintro rfl
      cases hp

/-- Rendering succeeds on every expression with a tree. Unless a read is cloned, the text is read as
tokens from which the grammar derives that tree and no other. -/
theorem Expr.render_derives_iff (cx : FnContext) (b : Bindings) (pos : ReadPosition)
    (reads : List Read) (e : Expr) (t : Tree) (h : e.HasTree cx.registry t) :
    ∃ code new, (e.render cx b pos).run reads = .ok (code, reads ++ new) ∧
      ((∀ rd ∈ new, rd.cloned = false) →
        ∃ tokens, tokens? code = some tokens ∧ ∀ t', Derives 1 tokens t' ↔ t' = t) := by
  obtain ⟨code, new, hrun, hcode⟩ := h.render_returns b pos reads
  exact ⟨code, new, hrun, fun hbare => (hcode.looser e.level_pos).derives_iff hbare⟩

end render

/-- `((xPos as f64) < 0.1) == (-(flag ? xPos : 2) >= xPos - (xPos - 2))`. -/
def Expr.nestedOperators : Expr :=
  let x := ofKind (.ident "xPos")
  let two := ofKind (.literal (.number ⟨0x4000000000000000⟩))
  let tenth := ofKind (.literal (.number ⟨0x3FB999999999999A⟩))
  let choice := ofKind (.unary .neg (ofKind (.ternary (ofKind (.ident "flag")) x two)))
  let difference := ofKind (.binary .sub x (ofKind (.binary .sub x two)))
  ofKind (.binary .eq (ofKind (.binary .lt (ofKind (.cast x (.prim .f64))) tenth))
    (ofKind (.binary .ge choice difference)))

/-- The tree of `Expr.nestedOperators`. -/
def Expr.nestedTree : Tree :=
  let x := Tree.name "x_pos"
  let two := Tree.number ⟨0x4000000000000000⟩
  .binary .eq (.binary .lt (.cast x .f64) (.number ⟨0x3FB999999999999A⟩))
    (.binary .ge (.unary .neg (.ifElse (.name "flag") x two)) (.binary .sub x (.binary .sub x two)))

/-- A function with a number `xPos` and a truth value `flag`, both of which duplicate freely. -/
def FnContext.twoParams : FnContext where
  registry := .empty
  copy := .empty
  usage := ⟨[⟨"xPos", .prim .f64, 4, 0, 1, false, true⟩, ⟨"flag", .bool, 1, 1, 1, false, true⟩],
    [], []⟩
  ret := .void

/-- The expression has the tree. -/
theorem Expr.nestedOperators_hasTree : nestedOperators.HasTree .empty nestedTree := by
  have hx : (ofKind (.ident "xPos")).HasTree .empty (.name "x_pos") := .ident (by decide +kernel)
  have hflag : (ofKind (.ident "flag")).HasTree .empty (.name "flag") := .ident (by decide +kernel)
  have htwo : (ofKind (.literal (.number ⟨0x4000000000000000⟩))).HasTree .empty
      (.number ⟨0x4000000000000000⟩) := .number (by decide +kernel) (by decide +kernel)
  have htenth : (ofKind (.literal (.number ⟨0x3FB999999999999A⟩))).HasTree .empty
      (.number ⟨0x3FB999999999999A⟩) := .number (by decide +kernel) (by decide +kernel)
  exact .binary rfl (.binary rfl (.cast rfl rfl hx) htenth)
    (.binary rfl (.unary (.ternary hflag hx htwo)) (.binary rfl hx (.binary rfl hx htwo)))

/-- The text of the expression is read as its tree and as no other. -/
theorem Expr.nestedOperators_derives_iff :
    let text := "((x_pos as f64) < 0.1) == (-(if flag \x7b x_pos \x7d else \x7b 2 \x7d) >= " ++
      "x_pos - (x_pos - 2))"
    nestedOperators.HasTree .empty nestedTree ∧
    ((nestedOperators.render .twoParams ((Bindings.empty.declare "xPos").declare "flag")
      .value).run []).toOption = some (text, [⟨0, .value, false⟩, ⟨1, .borrow, false⟩,
        ⟨0, .value, false⟩, ⟨0, .value, false⟩, ⟨0, .value, false⟩]) ∧
    ∃ tokens, tokens? text = some tokens ∧ ∀ t', Derives 1 tokens t' ↔ t' = nestedTree := by
  intro text
  have hrun : ((nestedOperators.render .twoParams ((Bindings.empty.declare "xPos").declare "flag")
      .value).run []).toOption = some (text, [⟨0, .value, false⟩, ⟨1, .borrow, false⟩,
        ⟨0, .value, false⟩, ⟨0, .value, false⟩, ⟨0, .value, false⟩]) := by decide +kernel
  refine ⟨nestedOperators_hasTree, hrun, ?_⟩
  obtain ⟨code, new, heq, h⟩ := render_derives_iff .twoParams
    ((Bindings.empty.declare "xPos").declare "flag") .value [] nestedOperators nestedTree
    nestedOperators_hasTree
  rw [heq] at hrun
  obtain ⟨rfl, rfl⟩ := Prod.mk.inj (Option.some.inj hrun)
  exact h (by decide)

end Oxidize
