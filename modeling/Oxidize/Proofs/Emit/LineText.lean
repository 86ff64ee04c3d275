import Oxidize.Proofs.Emit.BreakText
import Oxidize.Proofs.Grammar.Line

/-!
# Expressions on lines of their own

No expression is taken for a declaration or for the start of a block where it stands on a line, with or
without a statement around it: its text begins and ends like an expression does (`Stands`). What is on
the left of an expression decides how it begins, so `Expr.render_stands` follows the leftmost part.

This needs the names in the program to be names in the emitted source too, which is what
`Expr.isNamed` checks of each expression.
-/

namespace Oxidize

open Source

/-! ## Names -/

/-- The escaped form of an identifier is a name. -/
theorem Name.isNameText_escape {name : String} (h : isIdentifier name = true) :
    IsNameText (escape name) := by
  obtain ⟨c, cs, heq, hc, hcs⟩ := isWord_iff.1 (isIdentifier_iff.1 h).1
  have hchars : ∀ d ∈ name.toList, isNameChar d = true := by
    intro d hd
    rw [heq] at hd
    rcases List.mem_cons.1 hd with rfl | hd
    · simp [isNameChar, isWordChar, hc]
    · simp [isNameChar, hcs d hd]
  rcases escape_cases name with ⟨hname, hescape⟩ | ⟨hname, hescape⟩ | ⟨-, hkeyword, hescape⟩
  · rw [hescape]
    have hall : ∀ n ∈ reserved, n ++ "_" ∉ keywords := by decide +kernel
    refine ⟨by simp [heq], ?_, hall name hname⟩
    rw [String.toList_append]
    exact List.forall_mem_append.2 ⟨hchars, List.all_eq_true.1 (by decide)⟩
  · rw [hescape]
    have hall : ∀ n ∈ keywords, "r#" ++ n ∉ keywords := by decide +kernel
    refine ⟨by simp, ?_, hall name hname⟩
    rw [String.toList_append]
    exact List.forall_mem_append.2 ⟨List.all_eq_true.1 (by decide), hchars⟩
  · rw [hescape]
    exact ⟨by simp [heq], hchars, hkeyword⟩

/-- The name that is written for a value is a name. -/
theorem Name.isNameText_value {name : String} (h : isIdentifier name = true) :
    IsNameText (value name) := by
  rw [value]
  split
  · exact .of_isNameText (by decide)
  · exact isNameText_escape (isIdentifier_snakeCase h)

/-- The names of values that an expression itself writes. -/
def Expr.valueNames (e : Expr) : List String :=
  match e.kind with
  | .ident name | .call name _ | .field _ name _ => [name]
  | _ => []

/-- The names of types and variants that an expression itself writes. -/
def Expr.typeNames (e : Expr) : List String :=
  match e.kind with
  | .aggregate (.named name) _ => [name]
  | .variant enumName variant _ => [enumName, variant]
  | _ => []

/-- Whether the names that an expression itself writes are identifiers in the emitted source. -/
def Expr.isNamed (e : Expr) : Bool :=
  e.valueNames.all Name.isIdentifier && e.typeNames.all fun n => Name.isIdentifier (Name.pascalCase n)

/-- The names in all of the expressions are identifiers in the emitted source. -/
def NamedThroughout (nodes : List Expr) : Prop :=
  ∀ e ∈ nodes, e.isNamed = true

/-! ## Texts that stand on a line -/

/-- The text begins like an expression and ends like one. -/
structure Stands (text : String) : Prop where
  begins : Begins text.toList
  ends : endsPlain text = true

namespace Stands

variable {text : String}

/-- A suffix that can follow a name can follow any expression. -/
theorem append (h : Stands text) {suffix : String} (hsettled : settled suffix.toList = true)
    (hends : endsPlain suffix = true) : Stands (text ++ suffix) := by
  refine ⟨?_, endsPlain_append hends text⟩
  rw [String.toList_append]
  exact h.begins.append hsettled

/-- Only the start of what is appended has to follow a name. -/
theorem append_append (h : Stands text) {suffix : String} (hsettled : settled suffix.toList = true)
    (hne : suffix.toList ≠ []) {last : String} (hends : endsPlain last = true) :
    Stands (text ++ suffix ++ last) := by
  rw [String.append_assoc]
  refine h.append ?_ (endsPlain_append hends suffix)
  rw [String.toList_append]
  exact settled_append hsettled hne _

/-- A mark begins an expression. -/
theorem ofMark {c : Char} (hc : isNameChar c = false) (hblank : c ≠ ' ') (hclose : c ≠ '\x7d')
    (hhead : text.toList.head? = some c) (hends : endsPlain text = true) : Stands text := by
  obtain ⟨rest, hrest⟩ := List.head?_eq_some_iff.1 hhead
  refine ⟨?_, hends⟩
  rw [hrest]
  exact .mark hc hblank hclose

/-- A name begins an expression. -/
theorem ofName {name : String} (h : IsNameText name) {rest : String}
    (hrest : settled rest.toList = true) (hends : endsPlain rest = true) : Stands (name ++ rest) := by
  refine ⟨?_, endsPlain_append hends name⟩
  rw [String.toList_append]
  exact .name h hrest

/-- A text that starts with a name and a mark begins an expression. -/
theorem ofPrefix (name : String) (c : Char) (h : IsNameText name) (hc : isNameChar c = false)
    (hblank : c ≠ ' ') (hstart : name.toList ++ [c] <+: text.toList)
    (hends : endsPlain text = true) : Stands text := by
  obtain ⟨rest, hrest⟩ := hstart
  refine ⟨?_, hends⟩
  rw [← hrest, List.append_assoc]
  exact .name h (by simp [settled, hc, hblank])

/-- A name alone is an expression. -/
theorem ofNameText {name : String} (h : IsNameText name) : Stands name := by
  have hbegins : Begins (name.toList ++ []) := .name h rfl
  rw [List.append_nil] at hbegins
  refine ⟨hbegins, ?_⟩
  rw [endsPlain, List.getLast?_eq_some_getLast h.ne_nil, Option.any_some, bne_iff_ne]
  intro hlast
  have hchar := h.chars _ (List.getLast_mem h.ne_nil)
  rw [hlast] at hchar
  exact absurd hchar (by decide)

/-- An expression in parentheses reads as an expression. -/
theorem parenthesizeIf (h : Stands text) (wrap : Bool) : Stands (parenthesizeIf wrap text) := by
  cases wrap with
  | false => exact h
  | true =>
    exact ofMark (c := '(') (by decide) (by decide) (by decide)
      (by simp [Oxidize.parenthesizeIf]) (endsPlain_append (by decide) _)

end Stands

/-! ## Literals -/

/-- Digits read as the characters of a name, and no keyword has one. -/
theorem isNameText_of_isDigit {ds : List Char} (hne : ds ≠ []) (h : ∀ c ∈ ds, c.isDigit = true) :
    IsNameText (String.ofList ds) := by
  refine ⟨by simpa using hne, fun c hc => ?_, fun hmem => ?_⟩
  · rw [String.toList_ofList] at hc
    simp [isNameChar, isWordChar, h c hc]
  · have hall : ∀ w ∈ Name.keywords, w.toList.any Char.isDigit = false := by decide +kernel
    obtain ⟨c, cs, rfl⟩ := List.exists_cons_of_ne_nil hne
    have hc := hall _ hmem
    simp [h c (.head _)] at hc

/-- A number in positional notation reads as an expression. -/
theorem Decimal.positional_stands (d : Decimal) : Stands d.positional := by
  rcases d.positional_cases with ⟨ds, heq, h⟩ | ⟨whole, fraction, heq, h⟩
  · rw [heq]
    exact .ofNameText (isNameText_of_isDigit h.ne_nil h.isDigit)
  · have hfraction := isNameText_of_isDigit h.fraction_ne_nil h.isDigit_fraction
    have hsplit : d.positional = String.ofList whole ++ ("." ++ String.ofList fraction) := by
      rw [heq]
      simp
    rw [hsplit]
    refine .ofName (isNameText_of_isDigit h.whole_ne_nil h.isDigit_whole) ?_
      (endsPlain_append (Stands.ofNameText hfraction).ends _)
    rw [String.toList_append]
    exact settled_append (by decide) (by decide) _

/-- The text of a number reads as an expression, also where it is the path of a constant. -/
theorem Binary64.text_stands (x : Binary64) : Stands x.text := by
  have hpath : ∀ rest ∈ ["::NAN", "::NEG_INFINITY", "::INFINITY"], Stands ("f64" ++ rest) := by
    intro rest hrest
    refine .ofName (.of_isNameText (by decide)) ?_ ?_
    · revert rest; decide
    · revert rest; decide
  rw [Binary64.text]
  split
  · exact hpath "::NAN" (by decide)
  · split
    · split
      · exact hpath "::NEG_INFINITY" (by decide)
      · exact hpath "::INFINITY" (by decide)
    · split
      · exact .ofNameText (.of_isNameText (by decide))
      · have hdigits := x.shortest.positional_stands
        split
        · exact .ofMark (c := '-') (by decide) (by decide) (by decide) (by simp)
            (endsPlain_append hdigits.ends _)
        · rwa [String.empty_append]

/-- A quoted text reads as an expression. -/
theorem Text.quote_stands (s : String) : Stands (Text.quote s) := by
  refine .ofMark (c := '"') (by decide) (by decide) (by decide) (by simp [Text.quote]) ?_
  rw [endsPlain, Text.quote, String.toList_ofList, List.getLast?_concat]
  decide

/-- A truth value reads as an expression. -/
theorem boolText_stands (b : Bool) : Stands (boolText b) := by
  have hkeyword : ∀ word ∈ Name.keywords, word ≠ "let" → word ≠ "for" → Begins word.toList := by
    intro word hmem hlet hfor
    have hbegins : Begins (word.toList ++ []) := .keyword hmem hlet hfor rfl
    rwa [List.append_nil] at hbegins
  cases b with
  | true => exact ⟨hkeyword "true" (by decide) (by decide) (by decide), by decide⟩
  | false => exact ⟨hkeyword "false" (by decide) (by decide) (by decide), by decide⟩

/-- A literal reads as an expression. -/
theorem Literal.render_stands (value : Literal) : Stands value.render := by
  cases value with
  | number x => exact x.text_stands
  | bool v => exact boolText_stands v
  | text s => exact Text.quote_stands s
  | null => exact .ofNameText (.of_isNameText (by decide))

/-! ## Templates -/

namespace Template

/-- The ways in which templates start: with the receiver or the first argument and a mark, or with
text of their own. -/
def starts : List (List Piece) :=
  [[.group "recv", .char '.'], [.group "recv", .char '['], [.group "0", .char '.']] ++
    ["(", "[", "format!", "println!", "eprintln!", "vec!", "char:", "std:"].map fun text =>
      text.toList.map .char

/-- The template starts in one of these ways and ends with a bracket. -/
structure Bounded (pieces : List Piece) : Prop where
  starts : ∃ start ∈ Template.starts, start <+: pieces
  ends : pieces.getLast? = some (.char ')') ∨ pieces.getLast? = some (.char ']')

instance (pieces : List Piece) : Decidable (Bounded pieces) :=
  decidable_of_iff ((∃ start ∈ Template.starts, start <+: pieces) ∧
      (pieces.getLast? = some (.char ')') ∨ pieces.getLast? = some (.char ']')))
    ⟨fun h => ⟨h.1, h.2⟩, fun h => ⟨h.starts, h.ends⟩⟩

end Template

/-- The templates of all builtins start and end as expressions do. -/
theorem Table.bounded (table : Table) :
    ∀ rule ∈ table.rules, Template.Bounded (Template.pieces rule.template) := by
  rcases table with _ | _ | (_ | _ | _ | _ | _)
  all_goals
    simp only [Table.rules, Table.sequenceRules, Table.textRules, Table.consoleRules,
      Table.arrayRules, Table.stringRules, Table.mathRules, Table.processRules,
      List.forall_mem_cons]
    repeat' apply And.intro
  all_goals first
    | exact Template.of_ofList rfl (by decide +kernel)
    | exact List.forall_mem_nil _

/-- The receiver, if there is one, stands, and so does the first argument. -/
structure CallTexts.Stand (texts : CallTexts) : Prop where
  receiver : ∀ text ∈ texts.receiver, Stands text
  first : ∀ text ∈ texts.args[0]?, Stands text

/-- A group that shows a text or nothing, before a mark. -/
theorem Template.begins_group {texts : CallTexts} {key : String} {text : Option String}
    (hkey : groupText (placeholder? texts) key = text.getD "") (h : ∀ t ∈ text, Stands t) {c : Char}
    (hc : isNameChar c = false) (hblank : c ≠ ' ') (hclose : c ≠ '\x7d') (rest : List Char) :
    Begins (textOf (placeholder? texts) [.group key, .char c] ++ rest) := by
  have htext : textOf (placeholder? texts) [.group key, .char c] ++ rest =
      (text.getD "").toList ++ c :: rest := by
    rw [← hkey]
    simp [textOf, Piece.expand]
  rw [htext]
  cases text with
  | none => exact .mark hc hblank hclose
  | some t =>
    refine (h t rfl).begins.append ?_
    simp [settled, hc, hblank]

/-- What a template starts with begins an expression, whatever is put into it. -/
theorem Template.begins_textOf {start : List Piece} (hstart : start ∈ starts) {texts : CallTexts}
    (h : texts.Stand) (rest : List Char) :
    Begins (textOf (placeholder? texts) start ++ rest) := by
  have hname : ∀ (name : String) (c : Char), IsNameText name → isNameChar c = false → c ≠ ' ' →
      Begins (name.toList ++ c :: rest) := by
    intro name c hname hc hblank
    exact .name hname (by simp [settled, hc, hblank])
  simp only [starts, List.map_cons, List.map_nil, List.cons_append, List.nil_append, List.mem_cons,
    List.not_mem_nil, or_false] at hstart
  rcases hstart with rfl | rfl | rfl | rfl | rfl | rfl | rfl | rfl | rfl | rfl | rfl
  · exact begins_group rfl h.receiver (by decide) (by decide) (by decide) rest
  · exact begins_group rfl h.receiver (by decide) (by decide) (by decide) rest
  · have hkey : shown? "0" = some (.arg 0) := by decide +kernel
    exact begins_group (groupText_of_shown? hkey texts) h.first
      (by decide) (by decide) (by decide) rest
  · exact .mark (by decide) (by decide) (by decide)
  · exact .mark (by decide) (by decide) (by decide)
  · exact hname "format" '!' (.of_isNameText (by decide)) (by decide) (by decide)
  · exact hname "println" '!' (.of_isNameText (by decide)) (by decide) (by decide)
  · exact hname "eprintln" '!' (.of_isNameText (by decide)) (by decide) (by decide)
  · exact hname "vec" '!' (.of_isNameText (by decide)) (by decide) (by decide)
  · exact hname "char" ':' (.of_isNameText (by decide)) (by decide) (by decide)
  · exact hname "std" ':' (.of_isNameText (by decide)) (by decide) (by decide)

/-- The call of a builtin reads as an expression. -/
theorem Rule.render_stands {table : Table} {rule : Rule} (hrule : rule ∈ table.rules)
    {texts : CallTexts} (h : texts.Stand) : Stands (rule.render texts) := by
  obtain ⟨⟨start, hstart, rest, hrest⟩, hends⟩ := table.bounded rule hrule
  have htext : (rule.render texts).toList =
      Template.textOf (Template.placeholder? texts) (Template.pieces rule.template) :=
    Template.toList_expand rule.template texts
  constructor
  · rw [htext, ← hrest, Template.textOf_append]
    exact Template.begins_textOf hstart h _
  · have hlast : ∀ c, (Template.pieces rule.template).getLast? = some (.char c) →
        (rule.render texts).toList.getLast? = some c := by
      intro c hc
      obtain ⟨before, hbefore⟩ := List.getLast?_eq_some_iff.1 hc
      rw [htext, hbefore, Template.textOf_append]
      exact List.getLast?_concat
    rw [endsPlain]
    rcases hends with hends | hends
    · rw [hlast _ hends]
      decide
    · rw [hlast _ hends]
      decide

/-! ## Expressions -/

section
variable {cx : FnContext} {code : String}

/-- A read of a variable reads as an expression. -/
theorem readVar_stands {name : String} (h : Name.isIdentifier name = true) (b : Bindings)
    (pos : ReadPosition) : Rendering.Yields Stands (readVar cx b name pos) := by
  intro reads text reads' hrun
  obtain ⟨text', reads'', hrun', hcases⟩ := readVar_text cx b name pos reads
  cases hrun.symm.trans hrun'
  have hname := Name.isNameText_value h
  rcases hcases with ⟨-, rfl⟩ | ⟨rd, -, -, -, rfl⟩
  · exact .ofNameText hname
  · split
    · exact .ofName hname (by decide) (by decide)
    · exact .ofNameText hname

/-- A place that may be cloned reads as an expression. -/
theorem clonePlace_stands (h : Stands code) (pos : ReadPosition) (ty : Option Ty) :
    Stands (clonePlace cx pos ty code) := by
  rw [clonePlace]
  split
  · exact h.append (by decide) (by decide)
  · exact h

/-- An access to a field reads as an expression. -/
theorem fieldText_stands (h : Stands code) {field : String} (hfield : Name.isIdentifier field = true)
    (pos : ReadPosition) (ty : Option Ty) (objTy : Ty) :
    Stands (fieldText cx pos ty objTy code field) := by
  rw [fieldText]
  split
  · exact h.append (by decide) (by decide)
  · refine clonePlace_stands (h.append_append (by decide) (by decide) ?_) pos ty
    exact (Stands.ofNameText (Name.isNameText_value hfield)).ends

/-- Brackets behind what begins an expression. -/
theorem bracketed_stands {before : String} (h : Begins before.toList) {left right : String}
    (hleft : settled left.toList = true) (hne : left.toList ≠ []) (hright : endsPlain right = true)
    (text : String) : Stands (before ++ left ++ text ++ right) := by
  refine ⟨?_, endsPlain_append hright _⟩
  rw [String.append_assoc, String.append_assoc, String.toList_append]
  refine h.append ?_
  rw [String.toList_append]
  exact settled_append hleft hne _

/-- An access to an element reads as an expression. -/
theorem elementText_stands (h : Stands code) {i : String} (hi : Stands i) (pos : ReadPosition)
    (ty : Option Ty) (objTy : Ty) (index : Expr) :
    Stands (elementText cx pos ty objTy code index i) := by
  unfold elementText
  split
  · exact bracketed_stands h.begins (by decide) (by decide) (by decide) i
  · refine clonePlace_stands ?_ pos ty
    split
    · exact h.append_append (by decide) (by decide) hi.ends
    · exact bracketed_stands h.begins (by decide) (by decide) (by decide) i
    · exact bracketed_stands h.begins (by decide) (by decide) (by decide) i

/-- A cast reads as an expression. -/
theorem castText_stands (h : Stands code) (target : Ty) (e : Expr) :
    Stands (castText target e code) := by
  unfold castText
  split
  · exact (h.parenthesizeIf _).append (by decide) (by decide)
  · next p _ =>
    split
    · refine (h.parenthesizeIf _).append_append (by decide) (by decide) ?_
      cases p <;> decide
    · exact h
  · exact h

/-- A comparison with `null` reads as an expression. -/
theorem nullCheckText_stands (h : Stands code) (op : BinOp) (subject : Expr) :
    Stands (nullCheckText op subject code) := by
  rw [nullCheckText]
  split
  · exact (h.parenthesizeIf _).append (by decide) (by decide)
  · exact (h.parenthesizeIf _).append (by decide) (by decide)

/-- Joined texts read as an expression. -/
theorem joinText_stands (left right : String) : Stands (joinText left right) := by
  have hlead : ∀ lead : String, "format".toList ++ ['!'] <+: lead.toList →
      Stands (lead ++ left ++ ", " ++ right ++ ")") := by
    intro lead hlead
    refine .ofPrefix _ _ (.of_isNameText (by decide)) (by decide) (by decide) (hlead.trans ?_)
      (endsPlain_append (by decide) _)
    simp only [String.toList_append, List.append_assoc]
    exact List.prefix_append _ _
  exact hlead _ (by decide)

/-- A call reads as an expression. -/
theorem callText_stands {callee : String} (h : Begins callee.toList) (args : List String) :
    Stands (callText callee args) :=
  bracketed_stands h (by decide) (by decide) (by decide) _

/-- A record reads as an expression. -/
theorem recordText_stands {path : String} (h : Begins path.toList) (fields : List String) :
    Stands (recordText path fields) :=
  bracketed_stands h (by decide) (by decide) (by decide) _

/-- The text of a path or a member. -/
theorem begins_member {before : String} (h : Begins before.toList) {mark : String}
    (hmark : settled mark.toList = true) (hne : mark.toList ≠ []) (name : String) :
    Begins (before ++ mark ++ name).toList := by
  rw [String.append_assoc, String.toList_append]
  refine h.append ?_
  rw [String.toList_append]
  exact settled_append hmark hne _

/-- The name of a namespace begins an expression. -/
theorem Namespace.begins_ident (ns : Namespace) : Begins ns.ident.toList := by
  cases ns <;> exact (Stands.ofNameText (.of_isNameText (by decide))).begins

/-- A binary operation reads as an expression. -/
theorem binaryText_stands {left right : String} (hleft : Stands left) (hright : Stands right)
    (op : BinOp) : Stands (left ++ " " ++ op.symbol ++ " " ++ right) := by
  have hsplit : left ++ " " ++ op.symbol ++ " " ++ right =
      left ++ (" " ++ op.symbol) ++ (" " ++ right) := by
    simp only [String.append_assoc]
  rw [hsplit]
  exact hleft.append_append (by cases op <;> decide) (by cases op <;> decide)
    (endsPlain_append hright.ends " ")

/-- A tuple reads as an expression. -/
theorem tupleText_stands (codes : List String) : Stands (tupleText codes) := by
  refine .ofMark (c := '(') (by decide) (by decide) (by decide) ?_ ?_
  · unfold tupleText
    split <;> simp
  · unfold tupleText
    split
    · exact endsPlain_append (by decide) _
    · exact endsPlain_append (by decide) _

/-- The path of a variant reads as an expression. -/
theorem variantPath_stands {enumName variant : String}
    (henum : Name.isIdentifier (Name.pascalCase enumName) = true)
    (hvariant : Name.isIdentifier (Name.pascalCase variant) = true) :
    Stands (variantPath enumName variant) :=
  (Stands.ofNameText (Name.isNameText_escape henum)).append_append (by decide) (by decide)
    (Stands.ofNameText (Name.isNameText_escape hvariant)).ends

/-- A constant of a namespace reads as an expression. -/
theorem namespaceConstant?_stands {object : Expr} {field : String} {isLocal : String → Bool}
    {c : Constant} (h : namespaceConstant? object field isLocal = some c) : Stands c.template := by
  have hall : ∀ ns ∈ Namespace.all, ∀ c ∈ ns.constants,
      "std".toList ++ [':'] <+: c.template.toList ∧ endsPlain c.template = true := by
    decide +kernel
  obtain ⟨ns, -, hc⟩ := Option.bind_eq_some_iff.1 h
  obtain ⟨hstart, hends⟩ := hall ns (by cases ns <;> decide) c (List.mem_of_find?_eq_some hc)
  exact .ofPrefix _ _ (.of_isNameText (by decide)) (by decide) (by decide) hstart hends

/-- A converted value reads as an expression, however many layers are converted. -/
theorem coerceWithin_stands {r : Registry} {e : Expr} {actual : Option Ty} (h : Stands code) (n : Nat)
    (expected : Ty) : Stands (coerceWithin r e actual code n expected) := by
  cases n with
  | zero => exact h
  | succ n =>
    rw [coerceWithin]
    split
    · split
      · exact (h.parenthesizeIf _).append (by decide) (by decide)
      · exact h
    · split
      · refine .ofPrefix "Some" '(' (.of_isNameText (by decide)) (by decide)
          (by decide) ?_ (endsPlain_append (by decide) _)
        rw [String.toList_append, String.toList_append, List.append_assoc]
        exact List.prefix_append _ _
      · exact h
    · split
      · refine .ofMark (c := '&') (by decide) (by decide) (by decide) ?_ (endsPlain_append h.ends _)
        split <;> simp
      · exact h
    · exact h

/-- A value that flows into a place reads as an expression. -/
theorem coerce_stands {r : Registry} {e : Expr} (h : Stands code) (expected : Option Ty) :
    Stands (coerce r e code expected) := by
  cases expected with
  | none => exact h
  | some t => exact coerceWithin_stands h _ t

/-- The first of several arguments stands if it does alone. -/
theorem Expr.renderArgs_stands {b : Bindings} {pos : ReadPosition} {es : List Expr}
    (h : ∀ e ∈ es.head?, Rendering.Yields Stands (e.render cx b pos)) (params : List Ty) :
    Rendering.Yields (fun codes => ∀ text ∈ codes[0]?, Stands text)
      (Expr.renderArgs cx b pos params es) := by
  cases es with
  | nil =>
    rw [Expr.renderArgs]
    exact .pure nofun
  | cons e es =>
    rw [Expr.renderArgs]
    refine (h e rfl).bind fun code hcode => .after fun codes => .pure ?_
    rintro _ ⟨⟩
    exact coerce_stands hcode _

/-- The names of the first expressions are identifiers. -/
theorem NamedThroughout.left {a b : List Expr} (h : NamedThroughout (a ++ b)) : NamedThroughout a :=
  (List.forall_mem_append.1 h).1

/-- The names of the last expressions are identifiers. -/
theorem NamedThroughout.right {a b : List Expr} (h : NamedThroughout (a ++ b)) : NamedThroughout b :=
  (List.forall_mem_append.1 h).2

/-- What the check of names asks for. -/
theorem Expr.isNamed_iff {e : Expr} :
    e.isNamed = true ↔ (∀ n ∈ e.valueNames, Name.isIdentifier n = true) ∧
      ∀ n ∈ e.typeNames, Name.isIdentifier (Name.pascalCase n) = true := by
  rw [Expr.isNamed, Bool.and_eq_true, List.all_eq_true, List.all_eq_true]

/-- The text of an expression stands on a line. The case of each kind looks at what is leftmost. -/
theorem Expr.render_stands (b : Bindings) :
    (e : Expr) → NamedThroughout e.nodes → (pos : ReadPosition) →
      Rendering.Yields Stands (e.render cx b pos)
  | ⟨_, .literal value, _⟩, _, _ => by
    rw [Expr.render]
    exact .pure value.render_stands
  | ⟨_, .ident name, _⟩, h, pos => by
    rw [Expr.render]
    exact readVar_stands ((Expr.isNamed_iff.1 (h _ (.head _))).1 name (.head _)) b pos
  | ⟨_, .unary op expr, _⟩, h, _ => by
    rw [Expr.render]
    refine (expr.render_stands b (fun n hn => h n (.tail _ hn)) .value).bind fun code hcode => .pure ?_
    have hoperand : Stands (operandText expr code) := hcode.parenthesizeIf _
    have hends := endsPlain_append hoperand.ends op.symbol
    cases op with
    | neg => exact .ofMark (c := '-') (by decide) (by decide) (by decide) (by simp [UnaryOp.symbol]) hends
    | not => exact .ofMark (c := '!') (by decide) (by decide) (by decide) (by simp [UnaryOp.symbol]) hends
  | ⟨_, .binary op left right, _⟩, h, _ => by
    have hnodes : NamedThroughout (left.nodes ++ right.nodes) := fun n hn => h n (.tail _ hn)
    have hleft := left.render_stands b hnodes.left
    have hright := right.render_stands b hnodes.right
    rw [Expr.render]
    split
    · exact .after fun l => .after fun r => .pure (joinText_stands l r)
    · split
      · exact (hleft _).bind fun code hcode => .pure (nullCheckText_stands hcode op left)
      · split
        · exact (hright _).bind fun code hcode => .pure (nullCheckText_stands hcode op right)
        · exact (hleft _).bind fun l hl => (hright _).bind fun r hr => .pure
            (binaryText_stands (hl.parenthesizeIf _) (hr.parenthesizeIf _) op)
  | ⟨_, .call callee args, _⟩, h, _ => by
    rw [Expr.render]
    have hname := (Expr.isNamed_iff.1 (h _ (.head _))).1 callee (.head _)
    exact .after fun codes => .pure
      (callText_stands (Stands.ofNameText (Name.isNameText_value hname)).begins codes)
  | ⟨_, .methodCall object method ns args objectTy, _⟩, h, _ => by
    have hnodes : NamedThroughout (object.nodes ++ Expr.nodesList args) := fun n hn => h n (.tail _ hn)
    have hargs : ∀ pos, ∀ e ∈ args.head?, Rendering.Yields Stands (e.render cx b pos) := by
      intro pos e he
      cases args with
      | nil => cases he
      | cons arg args =>
        cases he
        rw [Expr.nodesList] at hnodes
        exact e.render_stands b hnodes.right.left pos
    rw [Expr.render]
    split
    · next n _ =>
      refine (Expr.renderArgs_stands (hargs _) _).bind fun codes hcodes => ?_
      split
      · next d hd => exact .pure (Rule.render_stands (Dispatch.rule_mem hd) ⟨by simp, hcodes⟩)
      · exact .pure (callText_stands (begins_member n.begins_ident (by decide) (by decide) _) codes)
    · refine (object.render_stands b hnodes.left .borrow).bind fun code hcode => ?_
      have hreceiver : Stands (receiverText object code) := hcode.parenthesizeIf _
      dsimp only
      split
      · next d hd =>
        refine (Expr.renderArgs_stands (hargs _) _).bind fun codes hcodes => .pure ?_
        refine Rule.render_stands (Dispatch.rule_mem_of_onValue? hd) ⟨?_, hcodes⟩
        rintro _ ⟨⟩
        exact hreceiver
      · exact .after fun codes => .pure
          (callText_stands (begins_member hreceiver.begins (by decide) (by decide) _) codes)
  | ⟨_, .index object index, ty⟩, h, pos => by
    have hnodes : NamedThroughout (object.nodes ++ index.nodes) := fun n hn => h n (.tail _ hn)
    rw [Expr.render]
    exact (object.render_stands b hnodes.left .borrow).bind fun code hcode =>
      (index.render_stands b hnodes.right .value).bind fun i hi =>
        .pure (elementText_stands (hcode.parenthesizeIf _) hi pos ty _ index)
  | ⟨_, .field object field objectTy, ty⟩, h, pos => by
    have hfield := (Expr.isNamed_iff.1 (h _ (.head _))).1 field (.head _)
    rw [Expr.render]
    split
    · next c hc => exact .pure (namespaceConstant?_stands hc)
    · exact (object.render_stands b (fun n hn => h n (.tail _ hn)) .borrow).bind fun code hcode =>
        .pure (fieldText_stands (hcode.parenthesizeIf _) hfield pos ty _)
  | ⟨_, .array items, _⟩, _, _ => by
    rw [Expr.render]
    refine .after fun codes => .pure ?_
    refine .ofPrefix "vec" '!' (.of_isNameText (by decide)) (by decide)
      (by decide) ?_ (endsPlain_append (by decide) _)
    simp
  | ⟨_, .tuple items, _⟩, _, _ =>
    .after fun codes => .pure (tupleText_stands codes)
  | ⟨_, .aggregate .pending _, _⟩, _, _ => by
    rw [Expr.render]
    intro reads a reads' h
    cases h
  | ⟨_, .aggregate (.named name) fields, _⟩, h, _ => by
    have htype := (Expr.isNamed_iff.1 (h _ (.head _))).2 name (.head _)
    have hname : Stands (Name.type name) := .ofNameText (Name.isNameText_escape htype)
    rw [Expr.render]
    refine .after fun parts => .pure ?_
    split
    · exact hname.append (by decide) (by decide)
    · exact recordText_stands hname.begins parts
  | ⟨_, .variant enumName variant none, _⟩, h, _ => by
    have htypes := (Expr.isNamed_iff.1 (h _ (.head _))).2
    rw [Expr.render]
    exact .pure (variantPath_stands (htypes enumName (.head _)) (htypes variant (.tail _ (.head _))))
  | ⟨_, .variant enumName variant (some data), _⟩, h, _ => by
    have htypes := (Expr.isNamed_iff.1 (h _ (.head _))).2
    have hpath := variantPath_stands (htypes enumName (.head _)) (htypes variant (.tail _ (.head _)))
    rw [Expr.render]
    split
    · exact .after fun parts => .pure (recordText_stands hpath.begins parts)
    · exact .after fun codes => .pure (callText_stands hpath.begins codes)
    · refine .after fun codes => .pure ?_
      split
      · exact hpath
      · exact callText_stands hpath.begins codes
  | ⟨_, .ternary cond thenExpr elseExpr, _⟩, _, _ => by
    rw [Expr.render]
    refine .after fun c => .after fun t => .after fun e => .pure ⟨?_, endsPlain_append (by decide) _⟩
    refine begins_of_keyword "if" (by decide) (by decide) ?_
    simp only [String.toList_append, List.append_assoc]
    exact List.prefix_append _ _
  | ⟨_, .cast expr ty, _⟩, h, _ => by
    rw [Expr.render]
    exact (expr.render_stands b (fun n hn => h n (.tail _ hn)) .value).bind fun code hcode =>
      .pure (castText_stands hcode _ expr)

/-- A value that is converted where it flows reads as an expression. -/
theorem Expr.renderValue_stands {e : Expr} (h : NamedThroughout e.nodes) (b : Bindings)
    (expected : Option Ty) : Rendering.Yields Stands (e.renderValue cx b expected) :=
  (e.render_stands b h .value).bind fun _ hcode => .pure (coerce_stands hcode expected)

end

end Oxidize
