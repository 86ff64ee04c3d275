import Oxidize.Proofs.Builtin.Slots
import Oxidize.Proofs.Emit.Name
import Oxidize.Proofs.Emit.Reads
import Oxidize.Proofs.Grammar.Numeral

/-!
# Texts that read `break;`

Which lines of the emitted source are those of a `break`. A text with a character that does not
occur in `break;` is none (`Foreign`), and every way of putting an expression together leaves such a
character: an operator, a bracket, a point. What remains are variables, whose names are never written
as a keyword. So neither an expression nor an expression statement reads `break;`
(`Expr.render_unbroken`), as long as the names of variables are words.
-/

namespace Oxidize

/-! ## Lines that read `break;` -/

/-- Whether a line is that of a `break`. -/
def isBreakLine (text : String) : Bool :=
  text.toList.dropWhile (· == ' ') == "break;".toList

/-- How many lines are those of a `break`. -/
def breakLines (lines : List String) : Nat :=
  lines.countP isBreakLine

/-- The lines of `break`s in two lists are those of both. -/
theorem breakLines_append (a b : List String) :
    breakLines (a ++ b) = breakLines a + breakLines b :=
  List.countP_append

/-- A character of the text does not occur in an indented `break;`. -/
def Foreign (text : String) : Prop :=
  ∃ c ∈ text.toList, c ∉ " break;".toList

/-- A text with a foreign character is no line of a `break`. -/
theorem Foreign.isBreakLine {text : String} (h : Foreign text) : isBreakLine text = false := by
  obtain ⟨c, hc, hforeign⟩ := h
  rw [Oxidize.isBreakLine, beq_eq_false_iff_ne]
  intro heq
  refine hforeign ?_
  rw [← List.takeWhile_append_dropWhile (p := (· == ' ')) (l := text.toList), heq,
    List.mem_append] at hc
  rcases hc with hc | hc
  · have hblank : (c == ' ') = true := List.mem_takeWhile_imp (p := (· == ' ')) hc
    rw [beq_iff_eq.1 hblank]
    decide
  · exact List.mem_cons_of_mem ' ' hc

instance (text : String) : Decidable (Foreign text) :=
  List.decidableBEx (· ∉ " break;".toList) text.toList

/-- A foreign text stays foreign with anything in front. -/
theorem Foreign.append_left {b : String} (h : Foreign b) (a : String) : Foreign (a ++ b) := by
  obtain ⟨c, hc, hforeign⟩ := h
  exact ⟨c, by simp [hc], hforeign⟩

/-- A foreign text stays foreign with anything behind it. -/
theorem Foreign.append_right {a : String} (h : Foreign a) (b : String) : Foreign (a ++ b) := by
  obtain ⟨c, hc, hforeign⟩ := h
  exact ⟨c, by simp [hc], hforeign⟩

/-- Neither the text alone nor the text as a statement is the line of a `break`. -/
structure Unbroken (text : String) : Prop where
  tail : isBreakLine text = false
  stmt : isBreakLine (text ++ ";") = false

/-- A foreign text is unbroken, also as a statement. -/
theorem Foreign.unbroken {text : String} (h : Foreign text) : Unbroken text :=
  ⟨h.isBreakLine, (h.append_right ";").isBreakLine⟩

/-- A name is a single word and no keyword, so it is neither `break` nor `break;`. -/
theorem Name.value_unbroken {name : String} (h : Source.isWord name.toList = true) :
    Unbroken (Name.value name) := by
  by_cases hwild : name = "_"
  · subst hwild
    exact Foreign.unbroken ⟨'_', by decide +kernel, by decide⟩
  have hident := Name.isIdentifier_iff.2 ⟨h, hwild⟩
  have hspells := Name.value_spells hident
  obtain ⟨c, hhead, hleads⟩ := hspells.leads
  obtain ⟨cs, hcs⟩ := List.head?_eq_some_iff.1 hhead
  have hblank : (c == ' ') = false := by
    rw [beq_eq_false_iff_ne]
    rintro rfl
    exact absurd hleads (by unfold Source.Leads; decide)
  constructor
  · rw [isBreakLine, beq_eq_false_iff_ne, hcs, List.dropWhile_cons_of_neg (by simp [hblank]), ← hcs]
    intro heq
    have htokens := hspells.tokens?_eq
    rw [String.toList_inj.1 heq] at htokens
    exact absurd htokens (by decide)
  · rw [isBreakLine, beq_eq_false_iff_ne, String.toList_append, hcs, List.cons_append,
      List.dropWhile_cons_of_neg (by simp [hblank]), ← List.cons_append, ← hcs]
    intro heq
    have hbreak : (Name.value name).toList = "break".toList :=
      List.append_cancel_right (heq.trans (by decide : "break;".toList = "break".toList ++ ";".toList))
    have hname := Name.isName_value hident
    rw [String.toList_inj.1 hbreak] at hname
    exact absurd hname (by decide)

/-! ## Texts of expressions -/

/-- Every variable that is named in the expressions has a word for a name. -/
def NamedByWords (nodes : List Expr) : Prop :=
  ∀ e ∈ nodes, ∀ name, e.ident? = some name → Source.isWord name.toList = true

/-- A rendering that succeeds gives a result with the property. -/
def Rendering.Yields {α : Type} (Q : α → Prop) (x : Rendering α) : Prop :=
  ∀ reads a reads', x.run reads = .ok (a, reads') → Q a

section
variable {cx : FnContext} {α β : Type} {Q : α → Prop} {R : β → Prop}

namespace Rendering.Yields

/-- A result that is given has the property if it does. -/
theorem pure {a : α} (h : Q a) : Rendering.Yields Q (Pure.pure a : Rendering α) := by
  rintro reads a' reads' ⟨⟩
  exact h

/-- Of two renderings in a row, the second one may use what the first one gives. -/
theorem bind {x : Rendering α} {f : α → Rendering β} (hx : Rendering.Yields Q x)
    (hf : ∀ a, Q a → Rendering.Yields R (f a)) : Rendering.Yields R (x >>= f) := by
  intro reads c reads'' h
  obtain ⟨a, reads', h₁, h₂⟩ := Rendering.exists_of_run_bind h
  exact hf a (hx reads a reads' h₁) reads' c reads'' h₂

/-- Nothing has to be known of the first result. -/
theorem after {x : Rendering α} {f : α → Rendering β} (hf : ∀ a, Rendering.Yields R (f a)) :
    Rendering.Yields R (x >>= f) :=
  bind (Q := fun _ => True) (fun _ _ _ _ => trivial) fun a _ => hf a

end Rendering.Yields

/-- A digit is foreign. -/
theorem foreign_of_isDigit {text : String} {c : Char} (hc : c ∈ text.toList)
    (hdigit : c.isDigit = true) : Foreign text := by
  refine ⟨c, hc, fun hmem => ?_⟩
  have hnone : (" break;".toList.all fun d => !d.isDigit) = true := by decide
  have hc := List.all_eq_true.1 hnone c hmem
  rw [hdigit] at hc
  cases hc

/-- A number in positional notation is foreign. -/
theorem Decimal.positional_foreign (d : Decimal) : Foreign d.positional := by
  rcases d.positional_cases with ⟨ds, heq, h⟩ | ⟨whole, fraction, heq, h⟩
  · obtain ⟨c, cs, rfl⟩ := List.exists_cons_of_ne_nil h.ne_nil
    exact foreign_of_isDigit (c := c) (by simp [heq]) (h.isDigit c (.head _))
  · obtain ⟨c, cs, rfl⟩ := List.exists_cons_of_ne_nil h.whole_ne_nil
    exact foreign_of_isDigit (c := c) (by simp [heq]) (h.isDigit_whole c (.head _))

/-- The text of a number is foreign. -/
theorem Binary64.text_foreign (x : Binary64) : Foreign x.text := by
  rw [Binary64.text]
  split
  · exact ⟨'N', by decide, by decide⟩
  · split
    · split <;> exact ⟨'N', by decide, by decide⟩
    · split
      · exact ⟨'0', by decide, by decide⟩
      · obtain ⟨c, hc, hforeign⟩ := x.shortest.positional_foreign
        exact ⟨c, by simp [hc], hforeign⟩

/-- The text of a literal is foreign. -/
theorem Literal.render_foreign (value : Literal) : Foreign value.render := by
  cases value with
  | number x => exact x.text_foreign
  | bool v =>
    cases v with
    | true => exact ⟨'t', by decide, by decide⟩
    | false => exact ⟨'f', by decide, by decide⟩
  | text s => exact ⟨'"', by simp [Literal.render, Text.quote], by decide⟩
  | null => exact ⟨'N', by decide, by decide⟩

/-- No argument takes a bracket of the template away. -/
theorem Rule.render_foreign {table : Table} {rule : Rule} (h : rule ∈ table.rules)
    (texts : CallTexts) : Foreign (rule.render texts) := by
  rcases (table.regular rule h).bracket with hmem | hmem
  · exact ⟨'(', Template.mem_expand_of_char hmem texts, by decide⟩
  · exact ⟨'[', Template.mem_expand_of_char hmem texts, by decide⟩

/-- A read of a variable whose name is a word is unbroken. -/
theorem readVar_unbroken {name : String} (h : Source.isWord name.toList = true) (b : Bindings)
    (pos : ReadPosition) : Rendering.Yields Unbroken (readVar cx b name pos) := by
  intro reads text reads' hrun
  obtain ⟨text', reads'', hrun', hcases⟩ := readVar_text cx b name pos reads
  cases hrun.symm.trans hrun'
  rcases hcases with ⟨-, rfl⟩ | ⟨rd, -, -, -, rfl⟩
  · exact Name.value_unbroken h
  · split
    · exact Foreign.unbroken ⟨'.', by simp, by decide⟩
    · exact Name.value_unbroken h

/-- An access to a field is foreign, since it has a point. -/
theorem fieldText_foreign (pos : ReadPosition) (ty : Option Ty) (objTy : Ty) (obj field : String) :
    Foreign (fieldText cx pos ty objTy obj field) := by
  refine ⟨'.', ?_, by decide⟩
  rw [fieldText]
  split
  · simp
  · rw [clonePlace]
    split <;> simp

/-- An access to an element is foreign, since it has a point or a bracket. -/
theorem elementText_foreign (pos : ReadPosition) (ty : Option Ty) (objTy : Ty) (obj : String)
    (index : Expr) (i : String) : Foreign (elementText cx pos ty objTy obj index i) := by
  unfold elementText
  split
  · exact ⟨'.', by simp, by decide⟩
  · rw [clonePlace]
    split
    · exact ⟨'.', by simp, by decide⟩
    · split
      · exact ⟨'.', by simp, by decide⟩
      · exact ⟨'[', by simp, by decide⟩
      · exact ⟨'[', by simp, by decide⟩

/-- A cast of an unbroken text is unbroken. -/
theorem castText_unbroken {target : Ty} {e : Expr} {code : String} (h : Unbroken code) :
    Unbroken (castText target e code) := by
  unfold castText
  split
  · exact Foreign.unbroken ⟨'.', by simp, by decide⟩
  · split
    · exact Foreign.unbroken ⟨'s', by simp, by decide⟩
    · exact h
  · exact h

/-- A comparison with `null` is foreign. -/
theorem nullCheckText_foreign (op : BinOp) (subject : Expr) (code : String) :
    Foreign (nullCheckText op subject code) := by
  refine ⟨'.', ?_, by decide⟩
  rw [nullCheckText]
  split <;> simp

/-- Joined texts are foreign. -/
theorem joinText_foreign (left right : String) : Foreign (joinText left right) := by
  have hcomma : Foreign ", " := by decide
  exact ((hcomma.append_left _).append_right _).append_right _

/-- The symbol of an operator is foreign. -/
theorem BinOp.symbol_foreign (op : BinOp) : Foreign op.symbol := by
  cases op <;> decide

/-- A tuple is foreign. -/
theorem tupleText_foreign (codes : List String) : Foreign (tupleText codes) := by
  refine ⟨'(', ?_, by decide⟩
  unfold tupleText
  split <;> simp

/-- A call is foreign. -/
theorem callText_foreign (callee : String) (args : List String) : Foreign (callText callee args) :=
  ⟨'(', by simp [callText], by decide⟩

/-- A constant of a namespace is foreign. -/
theorem namespaceConstant?_foreign {object : Expr} {field : String} {isLocal : String → Bool}
    {c : Constant} (h : namespaceConstant? object field isLocal = some c) : Foreign c.template := by
  have hall : ∀ ns ∈ Namespace.all, ∀ c ∈ ns.constants, Foreign c.template := by decide +kernel
  obtain ⟨ns, -, hc⟩ := Option.bind_eq_some_iff.1 h
  exact hall ns (by cases ns <;> decide) c (List.mem_of_find?_eq_some hc)

/-- A cast may leave the text as it is, which is then that of the expression inside. -/
theorem Expr.render_unbroken (b : Bindings) :
    (e : Expr) → NamedByWords e.nodes → (pos : ReadPosition) →
      Rendering.Yields Unbroken (e.render cx b pos)
  | ⟨_, .literal value, _⟩, _, _ => by
    rw [Expr.render]
    exact .pure value.render_foreign.unbroken
  | ⟨_, .ident name, _⟩, h, pos => by
    rw [Expr.render]
    exact readVar_unbroken (h _ (.head _) name rfl) b pos
  | ⟨_, .unary op expr, _⟩, _, _ => by
    rw [Expr.render]
    refine .after fun code => .pure (Foreign.unbroken ?_)
    cases op with
    | neg => exact ⟨'-', by simp [UnaryOp.symbol], by decide⟩
    | not => exact ⟨'!', by simp [UnaryOp.symbol], by decide⟩
  | ⟨_, .binary op left right, _⟩, _, _ => by
    rw [Expr.render]
    split
    · exact .after fun l => .after fun r => .pure (joinText_foreign l r).unbroken
    · split
      · exact .after fun code => .pure (nullCheckText_foreign ..).unbroken
      · split
        · exact .after fun code => .pure (nullCheckText_foreign ..).unbroken
        · refine .after fun l => .after fun r => .pure (Foreign.unbroken ?_)
          exact ((op.symbol_foreign.append_left _).append_right _).append_right _
  | ⟨_, .call callee args, _⟩, _, _ => by
    rw [Expr.render]
    exact .after fun codes => .pure (callText_foreign _ _).unbroken
  | ⟨_, .methodCall object method ns args objectTy, _⟩, _, _ => by
    rw [Expr.render]
    split
    · refine .after fun codes => ?_
      split
      · next d hd => exact .pure (Rule.render_foreign (Dispatch.rule_mem hd) _).unbroken
      · exact .pure (callText_foreign _ _).unbroken
    · refine .after fun code => ?_
      dsimp only
      split
      · next d hd =>
        exact .after fun codes => .pure
          (Rule.render_foreign (Dispatch.rule_mem_of_onValue? hd) _).unbroken
      · exact .after fun codes => .pure (callText_foreign _ _).unbroken
  | ⟨_, .index object index, ty⟩, _, pos => by
    rw [Expr.render]
    exact .after fun code => .after fun i => .pure (elementText_foreign ..).unbroken
  | ⟨_, .field object field objectTy, ty⟩, _, pos => by
    rw [Expr.render]
    split
    · next c hc => exact .pure (namespaceConstant?_foreign hc).unbroken
    · exact .after fun code => .pure (fieldText_foreign ..).unbroken
  | ⟨_, .array items, _⟩, _, _ => by
    rw [Expr.render]
    exact .after fun codes => .pure (Foreign.unbroken ⟨'!', by simp, by decide⟩)
  | ⟨_, .tuple items, _⟩, _, _ =>
    .after fun codes => .pure (tupleText_foreign codes).unbroken
  | ⟨_, .aggregate .pending _, _⟩, _, _ => by
    rw [Expr.render]
    intro reads a reads' h
    cases h
  | ⟨_, .aggregate (.named name) fields, _⟩, _, _ => by
    rw [Expr.render]
    refine .after fun parts => .pure (Foreign.unbroken ⟨'\x7b', ?_, by decide⟩)
    split <;> simp [recordText]
  | ⟨_, .variant enumName variant none, _⟩, _, _ => by
    rw [Expr.render]
    exact .pure (Foreign.unbroken ⟨':', by simp [variantPath], by decide⟩)
  | ⟨_, .variant enumName variant (some data), _⟩, _, _ => by
    rw [Expr.render]
    split
    · exact .after fun parts => .pure (Foreign.unbroken ⟨':', by simp [recordText, variantPath], by decide⟩)
    · exact .after fun parts => .pure (callText_foreign _ _).unbroken
    · refine .after fun codes => .pure (Foreign.unbroken ⟨':', ?_, by decide⟩)
      split <;> simp [callText, variantPath]
  | ⟨_, .ternary cond thenExpr elseExpr, _⟩, _, _ => by
    rw [Expr.render]
    exact .after fun c => .after fun t => .after fun e =>
      .pure (Foreign.unbroken ⟨'i', by simp, by decide⟩)
  | ⟨_, .cast expr ty, _⟩, h, _ => by
    rw [Expr.render]
    exact (expr.render_unbroken b (fun n hn => h n (.tail _ hn)) .value).bind fun code hcode =>
      .pure (castText_unbroken hcode)

/-- A conversion of an unbroken text is unbroken, however many layers are converted. -/
theorem coerceWithin_unbroken {r : Registry} {e : Expr} {actual : Option Ty} {code : String}
    (h : Unbroken code) (n : Nat) (expected : Ty) :
    Unbroken (coerceWithin r e actual code n expected) := by
  cases n with
  | zero => exact h
  | succ n =>
    rw [coerceWithin]
    split
    · split
      · exact Foreign.unbroken ⟨'.', by simp, by decide⟩
      · exact h
    · split
      · exact Foreign.unbroken ⟨'(', by simp, by decide⟩
      · exact h
    · split
      · refine Foreign.unbroken ⟨'&', ?_, by decide⟩
        split <;> simp
      · exact h
    · exact h

/-- A value that is converted where it flows is unbroken. -/
theorem Expr.renderValue_unbroken {e : Expr} (h : NamedByWords e.nodes) (b : Bindings)
    (expected : Option Ty) : Rendering.Yields Unbroken (e.renderValue cx b expected) :=
  (e.render_unbroken b h .value).bind fun _ hcode => .pure <| by
    cases expected with
    | none => exact hcode
    | some t => exact coerceWithin_unbroken hcode _ _

end

end Oxidize
