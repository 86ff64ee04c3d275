import Oxidize.Proofs.Emit.Operators
import Oxidize.Proofs.Emit.Parts
import Oxidize.Proofs.Grammar.WholeOperand

/-!
# Arguments of builtins that stay whole

A template puts an argument into a frame, and the frame has a level: how tight an expression must bind
for the operators of the frame to take all of it (`Frame.level`). Templates do not parenthesize, so an
argument with a tree of operators is read as a whole exactly if its own level is as tight as that of
the frame (`Expr.render_argument_whole_iff`).

Three things are always whole: counts, which are cast to `usize` in parentheses (`asUsize`), arguments
that are alone between brackets and commas, and arguments that are converted to the type of an element.
A conversion makes an operand of the argument or puts it between the brackets of `Some`, and where
converted arguments stand, every operand is read as a whole (`Frame.Wraps`).

Variables that are cloned in an argument are read as their names: the text is read without the calls of
`clone` (`Source.unclone`).
-/

namespace Oxidize

open Source Template

/-! ## The tightest level of a text -/

/-- The text is an expression with the tree, of the level and of no tighter one, apart from clones. There
are none if `p` holds. -/
def Source.ExpressesAt (p : Prop) (n : ℕ) (text : String) (t : Tree) : Prop :=
  ∃ ts us, Spells text.toList ts ∧ Clones p ts us ∧ ∀ m, Derives m us t ↔ m ≤ n

namespace Source.Expresses

variable {p : Prop} {n : ℕ} {text text' : String} {t t' : Tree}

/-- An operand is of no tighter level, since there is none. -/
theorem at_eight (h : Expresses p 8 text t) : ExpressesAt p 8 text t := by
  obtain ⟨ts, us, hs, hc, hd⟩ := h
  exact ⟨ts, us, hs, hc, fun m => ⟨fun h => h.le_eight, hd.looser⟩⟩

/-- A unary operator in front of an operand is of its level and of no tighter one. -/
theorem unary_at (op : UnaryOp) (h : Expresses p 7 text t) :
    ExpressesAt p 7 (op.symbol ++ text) (.unary op t) := by
  obtain ⟨ts, us, hs, hc, hd⟩ := h
  have hunary := hd.unary (unaryOp?_symbol op)
  refine ⟨_, _, by simpa using hs.unary op, hc.cons (.mark op.symbol),
    fun m => ⟨fun h => ?_, hunary.looser⟩⟩
  refine Nat.le_of_not_lt fun hm => ?_
  have hnone := (h.looser hm).unary?_eq_none rfl []
  simp [unary?, unaryOp?_symbol] at hnone

/-- A binary operator between its operands is of its level and of no tighter one. -/
theorem binary_at (op : BinOp) (h : Expresses p (leftLevel op) text t)
    (h' : Expresses p (level op + 1) text' t') :
    ExpressesAt p (level op) (text ++ " " ++ op.symbol ++ " " ++ text') (.binary op t t') := by
  obtain ⟨ts, us, hs, hc, hd⟩ := h
  obtain ⟨ts', us', hs', hc', hd'⟩ := h'
  have hop := binOp?_symbol op
  exact ⟨_, _, by simpa using hs.binary op hs', hc.append (hc'.cons (.mark op.symbol)),
    fun m => ⟨Derives.le_level hop hd hd', (Derives.binary hop hd hd').looser⟩⟩

/-- A cast is of its level and of no tighter one. -/
theorem cast_at {target : Prim} (htarget : target.isNumeric = true) (h : Expresses p 6 text t) :
    ExpressesAt p 6 (text ++ " as " ++ target.text .loc) (.cast t target) := by
  obtain ⟨ts, us, hs, hc, hd⟩ := h
  have hcast := hd.cast (numericType?_text htarget)
  refine ⟨_, _, ?_, hc.append (.refl p [.word "as", .word (target.text .loc)]),
    fun m => ⟨fun h => h.of_cast.1, hcast.looser⟩⟩
  simpa using hs.cast (Name.spells_of_isIdentifier (isIdentifier_text htarget))

end Source.Expresses

namespace Source.ExpressesAt

variable {p q : Prop} {n : ℕ} {text : String} {t : Tree}

/-- An expression of a level and of no tighter one is one of the level. -/
theorem expresses (h : ExpressesAt p n text t) : Expresses p n text t := by
  obtain ⟨ts, us, hs, hc, hd⟩ := h
  exact ⟨ts, us, hs, hc, (hd n).2 (Nat.le_refl n)⟩

/-- What is free of clones under a condition is so under a stronger one. -/
theorem mono (h : ExpressesAt p n text t) (hqp : q → p) : ExpressesAt q n text t := by
  obtain ⟨ts, us, hs, hc, hd⟩ := h
  exact ⟨ts, us, hs, hc.mono hqp, hd⟩

end Source.ExpressesAt

/-! ## Frames -/

/-- The text has no clones. -/
def Source.Bare (text : String) : Prop :=
  ∀ ts, tokens? text = some ts → unclone ts = ts

namespace Template.Frame

/-- The level that an argument must have for the frame to take all of it. -/
def level : Frame → ℕ
  | .alone => 1
  | .cast _ => 6
  | .borrow | .view => 7
  | .search => 4
  | .members _ => 8

/-- The tree of the frame around an argument with the tree. -/
def item (t : Tree) : Frame → Item
  | .alone => .expr t
  | .cast target => .expr (.cast t target)
  | .borrow => .prefixed .borrow (.expr t)
  | .view => .prefixed .borrow (.prefixed .deref (.expr t))
  | .search => .closure "e" (.compared "e" (.expr t))
  | .members suffix => .members t ((tokens? suffix).getD [])

/-- The tokens in front of an argument. -/
def front : Frame → List Token
  | .borrow => [.mark "&"]
  | .view => [.mark "&", .mark "*"]
  | .search => [.mark "|", .word "e", .mark "|", .mark "*", .word "e", .mark "=="]
  | .alone | .cast _ | .members _ => []

/-- The tokens behind an argument. -/
def back : Frame → List Token
  | .cast target => [.word "as", .word (target.text .loc)]
  | .members suffix => (tokens? suffix).getD []
  | .alone | .borrow | .view | .search => []

/-- The frame around a text. -/
def around (frame : Frame) (text : String) : String :=
  String.ofList (frame.before ++ text.toList ++ frame.after)

/-- The frame around the text has one tree, and the argument is a part of it with its own tree. -/
def Keeps (frame : Frame) (text : String) (t : Tree) : Prop :=
  ∃ ts, tokens? (frame.around text) = some ts ∧ ∀ i, Phrase 0 (unclone ts) i ↔ i = frame.item t

variable {p : Prop} {frame : Frame} {text : String} {ts us : List Token} {t : Tree}

/-- Templates cast arguments to numeric types only. -/
theorem isNumeric_of_mem {target : Prim} (h : cast target ∈ frames) : target.isNumeric = true := by
  simp only [frames, List.mem_cons, cast.injEq, reduceCtorEq, List.not_mem_nil, false_or, or_false]
    at h
  rcases h with rfl | rfl | rfl <;> rfl

/-- The members that frames take are complete, and no digit follows the point. None of them is
`clone`. -/
theorem chain_of_mem {suffix : String} (h : members suffix ∈ frames) :
    Ends suffix.toList ∧
      ∃ us, tokens? suffix = some us ∧ Chain.run us = some .closed ∧ unclone us = us := by
  simp only [frames, List.mem_cons, members.injEq, reduceCtorEq, List.not_mem_nil, false_or, or_false]
    at h
  have hends : ∀ rest : String, rest.toList.head?.any Char.isDigit = false →
      Ends ("." ++ rest).toList := by
    intro rest hrest
    rw [String.toList_append]
    exact ends_point hrest
  rcases h with rfl | rfl
  · exact ⟨hends "as_slice()" (by decide +kernel), _, rfl, by decide +kernel, by decide +kernel⟩
  · exact ⟨hends "iter().cloned().collect::<Vec<_>>()" (by decide +kernel), _, rfl, by decide +kernel,
      by decide +kernel⟩

/-- The parameter of a closure is read as three tokens. -/
theorem scans_param : Scans ['|', 'e', '|'] [.mark "|", .word "e", .mark "|"] := by
  intro rest hrest
  have hbar : Scans ['|'] [.mark "|"] := scans_mark (by decide) (by decide)
  have hopen : scan .nothing ('|' :: 'e' :: '|' :: rest) =
      (scan .nothing ('e' :: '|' :: rest)).map ([.mark "|"] ++ ·) :=
    scan_mark (by decide) (by rintro c ⟨⟩; decide)
  have hname : scan .nothing ('e' :: '|' :: rest) =
      (scan .nothing ('|' :: rest)).map ([.word "e"] ++ ·) := by
    have hstart : Pending.start? 'e' = some (.word ['e']) := by decide
    rw [scan_start hstart]
    exact scan_eq_of_extend? (by simp [Pending.extend?, isWordChar, isWordStart])
  have hclose : scan .nothing ('|' :: rest) = (scan .nothing rest).map ([.mark "|"] ++ ·) :=
    hbar rest hrest
  rw [List.cons_append, List.cons_append, List.cons_append, List.nil_append, hopen, hname, hclose]
  cases scan .nothing rest <;> rfl

/-- The text of a search around characters that are read on their own. -/
theorem scans_search {cs : List Char} (h : Scans cs ts) :
    Scans (search.before ++ cs) (search.front ++ ts) := by
  have hname : Spells ['e'] [.word "e"] := spells_word (by decide)
  have hstar := hname.mark (m := '*') (by decide) (by decide)
  have heq : Scans ['=', '='] [.mark "=="] := scans_mark₂ (by decide) (by decide) (by decide)
  simpa [before, front] using scans_param.blank (hstar.blank (heq.blank h))

/-- The tokens of the frame around a text. -/
theorem tokens?_around (hframe : frame ∈ frames) (h : Spells text.toList ts) :
    tokens? (frame.around text) = some (frame.front ++ ts ++ frame.back) := by
  rw [tokens?, around, String.toList_ofList]
  cases frame with
  | alone => simpa [before, after, front, back] using h.scans.scan_eq
  | cast target =>
    have htarget := isIdentifier_text (isNumeric_of_mem hframe)
    simpa [before, after, front, back] using
      (h.cast (Name.spells_of_isIdentifier htarget)).scans.scan_eq
  | borrow =>
    simpa [before, after, front, back] using (h.mark (m := '&') (by decide) (by decide)).scan_eq
  | view =>
    have hstar := (h.mark (m := '*') (by decide) (by decide)).scan_eq
    have hnext : ∀ c ∈ ('*' :: text.toList).head?, ['&', c] ∉ marks := by
      rintro c ⟨⟩
      decide
    simp [before, after, front, back, scan_mark (by decide) hnext, hstar]
  | search => simpa [after, back] using (scans_search h.scans).scan_eq
  | members suffix =>
    obtain ⟨hends, us, hus, -⟩ := chain_of_mem hframe
    have hscan : scan .nothing suffix.toList = some us := hus
    simp only [before, after, List.nil_append, front, back, hus, Option.getD_some, h.scans _ hends,
      hscan, Option.map_some]

/-- Clones are only in the argument. -/
theorem unclone_tokens (hframe : frame ∈ frames) (h : Clones p ts us) (hus : .mark "." ∉ us) :
    unclone (frame.front ++ ts ++ frame.back) = frame.front ++ us ++ frame.back := by
  refine h.unclone_between hus ?_ ?_
  · cases frame <;> simp [front]
  · cases frame with
    | members suffix =>
      obtain ⟨-, vs, hvs, -, hclones⟩ := chain_of_mem hframe
      rw [back, hvs, Option.getD_some, hclones]
    | _ => rfl

/-- The frame takes all of an argument that is an expression of its level. -/
theorem phrase_iff (hframe : frame ∈ frames) (h : Derives 1 us t) :
    (∀ i, Phrase 0 (frame.front ++ us ++ frame.back) i ↔ i = frame.item t) ↔
      Derives frame.level us t := by
  cases frame with
  | alone =>
    rw [front, back, List.nil_append, List.append_nil]
    exact ⟨fun _ => h, fun h _ => h.phrase_iff (by decide)⟩
  | cast target => exact Phrase.cast_iff (numericType?_text (isNumeric_of_mem hframe))
  | borrow =>
    rw [back, List.append_nil]
    exact Phrase.borrow_iff
  | view =>
    rw [back, List.append_nil]
    exact Phrase.view_iff
  | search =>
    rw [back, List.append_nil]
    exact (Phrase.closure_iff (by decide)).trans
      (Phrase.compared_iff (by decide) h.plainOperand.plain)
  | members suffix =>
    obtain ⟨-, vs, hvs, hchain, -⟩ := chain_of_mem hframe
    rw [item, front, back, hvs]
    exact Phrase.members_iff hchain

/-- An argument stays whole exactly if it binds as tight as the frame asks for. If nothing is cloned in
it, nothing is left out when the frame is read. -/
theorem keeps_iff (hframe : frame ∈ frames) {n : ℕ} (h : ExpressesAt p n text t) (hn : 1 ≤ n) :
    (frame.Keeps text t ↔ frame.level ≤ n) ∧ (p → Bare (frame.around text)) := by
  obtain ⟨ts, us, hs, hc, hd⟩ := h
  have hone : Derives 1 us t := (hd 1).2 hn
  have hclones := unclone_tokens hframe hc (point_not_mem_of_isPlain hone.plainOperand.plain)
  constructor
  · rw [← hd, ← phrase_iff hframe hone]
    constructor
    · rintro ⟨vs, hvs, h⟩
      cases (tokens?_around hframe hs).symm.trans hvs
      rwa [hclones] at h
    · intro h
      refine ⟨_, tokens?_around hframe hs, ?_⟩
      rwa [hclones]
  · intro hp vs hvs
    cases (tokens?_around hframe hs).symm.trans hvs
    rw [hclones, hc.eq hp]

end Template.Frame

/-! ## Converted arguments -/

/-- What a conversion makes of an operand: text that owns its buffer, or a reference. -/
inductive Conversion where
  | owned
  | borrow
  | borrowMut

namespace Conversion

/-- The text of a converted operand. -/
def text (operand : String) : Conversion → String
  | .owned => operand ++ ".to_string()"
  | .borrow => "&" ++ operand
  | .borrowMut => "&mut " ++ operand

/-- The tokens in front of the operand. -/
def front : Conversion → List Token
  | .owned => []
  | .borrow => [.mark "&"]
  | .borrowMut => [.mark "&", .word "mut"]

/-- The tokens behind the operand. -/
def back : Conversion → List Token
  | .owned => callTokens "to_string"
  | .borrow | .borrowMut => []

/-- The tree of a converted operand. -/
def item (t : Tree) : Conversion → Item
  | .owned => .members t (callTokens "to_string")
  | .borrow => .prefixed .borrow (.expr t)
  | .borrowMut => .prefixed .borrowMut (.expr t)

variable {operand : String} {ts : List Token} {t : Tree}

/-- A converted operand is an operand again. -/
theorem soleOperand (c : Conversion) (h : Derives 8 ts t) :
    SoleOperand (c.front ++ ts ++ c.back) (c.item t) := by
  have hseven : Derives 7 ts t := h.looser (by decide)
  cases c with
  | owned => exact h.soleOperand_members (by decide +kernel)
  | borrow =>
    rw [back, List.append_nil]
    exact hseven.soleOperand.apply (s := "&") (.inl rfl) rfl
  | borrowMut =>
    rw [back, List.append_nil]
    exact hseven.soleOperand.borrowMut

/-- A converted operand is read as the tokens of the operand between those of the conversion. -/
theorem scans (c : Conversion) (h : Spells operand.toList ts) :
    Scans (c.text operand).toList (c.front ++ ts ++ c.back) := by
  cases c with
  | owned =>
    have hcall := (h.call "to_string".toList (by decide)).scans
    simpa [text, front, back] using hcall
  | borrow => simpa [text, front, back] using h.mark (m := '&') (by decide) (by decide)
  | borrowMut =>
    have hmut : Spells ['m', 'u', 't'] [.word "mut"] := spells_word (by decide)
    have hmark := (hmut.blank h.scans).mark (m := '&') (by decide) (by decide)
    simpa [text, front, back] using hmark

/-- The tokens in front of the operand, with a reference to the result. -/
def borrowedFront : Conversion → List Token
  | .owned => [.mark "&"]
  | .borrow => [.mark "&&"]
  | .borrowMut => [.mark "&&", .word "mut"]

/-- A reference to a reference is a mark of its own. -/
theorem scans_borrowed (c : Conversion) (h : Spells operand.toList ts) :
    Scans ('&' :: (c.text operand).toList) (c.borrowedFront ++ ts ++ c.back) := by
  have hdouble : ∀ {cs vs}, Scans cs vs → Scans ('&' :: '&' :: cs) (.mark "&&" :: vs) := by
    intro cs vs hscans rest hrest
    have hnext : ∀ c ∈ (cs ++ rest).head?, ['&', '&', c] ∉ marks := by simp [marks]
    rw [List.cons_append, List.cons_append, scan_mark₂ (by decide) (by decide) hnext, hscans rest hrest]
    cases scan .nothing rest <;> rfl
  cases c with
  | owned =>
    have hcall := h.call "to_string".toList (by decide)
    simpa [text, borrowedFront, back] using hcall.mark (m := '&') (by decide) (by decide)
  | borrow => simpa [text, borrowedFront, back] using hdouble h.scans
  | borrowMut =>
    have hmut : Spells ['m', 'u', 't'] [.word "mut"] := spells_word (by decide)
    simpa [text, borrowedFront, back] using hdouble (hmut.blank h.scans).scans

/-- A reference to a converted operand is a whole operand, also where two marks are read as one. -/
theorem soleOperand_borrowed (c : Conversion) (h : Derives 8 ts t) :
    SoleOperand (c.borrowedFront ++ ts ++ c.back) (.prefixed .borrow (c.item t)) := by
  have hwhole := c.soleOperand h
  cases c with
  | owned => exact hwhole.apply (s := "&") (.inl rfl) rfl
  | borrow | borrowMut => exact hwhole.double

end Conversion

namespace Template.Frame

/-- The tree of a frame around an item. Items that are no expressions stand only in these frames. -/
def put (i : Item) : Frame → Option Item
  | .alone => some i
  | .borrow => some (.prefixed .borrow i)
  | .search => some (.closure "e" (.compared "e" i))
  | .cast _ | .view | .members _ => none

/-- The frame around the text has one tree, in which the text is the item. There are no clones if `p`
holds. -/
def Reads (p : Prop) (frame : Frame) (text : String) (i : Item) : Prop :=
  ∃ ts, tokens? (frame.around text) = some ts ∧ (p → unclone ts = ts) ∧
    ∀ j, Phrase 0 (unclone ts) j ↔ frame.put i = some j

variable {p : Prop} {frame : Frame} {text : String} {t : Tree}

/-- Clones are only between the given tokens. -/
theorem Reads.of_clones {ts us front back : List Token} {i : Item}
    (htokens : tokens? (frame.around text) = some (front ++ ts ++ back)) (hc : Clones p ts us)
    (hus : .mark "." ∉ us) (hfront : .mark "." ∉ front) (hback : unclone back = back)
    (hphrase : ∀ j, Phrase 0 (front ++ us ++ back) j ↔ frame.put i = some j) :
    frame.Reads p text i := by
  have hclones := hc.unclone_between hus hfront hback
  refine ⟨_, htokens, fun hp => by rw [hclones, hc.eq hp], ?_⟩
  rwa [hclones]

/-- A converted operand is read as a whole in the frames of converted arguments. -/
theorem reads_converted (hframe : frame ∈ elementFrames) (c : Conversion) (h : Expresses p 8 text t) :
    frame.Reads p (c.text text) (c.item t) := by
  obtain ⟨ts, us, hs, hc, hd⟩ := h
  have hus : .mark "." ∉ us := point_not_mem_of_isPlain hd.plainOperand.plain
  have hback : unclone c.back = c.back := by cases c <;> rfl
  have hwhole := c.soleOperand hd
  simp only [elementFrames, List.mem_cons, List.not_mem_nil, or_false] at hframe
  rcases hframe with rfl | rfl | rfl
  · have htokens : tokens? (alone.around (c.text text)) = some (c.front ++ ts ++ c.back) := by
      simpa [tokens?, around, before, after] using (c.scans hs).scan_eq
    refine .of_clones htokens hc hus (by cases c <;> simp [Conversion.front]) hback fun j => ?_
    rw [hwhole.phrase_iff (Nat.zero_le _), put, Option.some.injEq, eq_comm]
  · have htokens : tokens? (borrow.around (c.text text)) =
        some (c.borrowedFront ++ ts ++ c.back) := by
      simpa [tokens?, around, before, after] using (c.scans_borrowed hs).scan_eq
    refine .of_clones htokens hc hus (by cases c <;> simp [Conversion.borrowedFront]) hback fun j => ?_
    rw [(c.soleOperand_borrowed hd).phrase_iff (Nat.zero_le _), put, Option.some.injEq, eq_comm]
  · have htokens : tokens? (search.around (c.text text)) =
        some ((search.front ++ c.front) ++ ts ++ c.back) := by
      simpa [tokens?, around, before, after] using (scans_search (c.scans hs)).scan_eq
    refine .of_clones htokens hc hus (by cases c <;> simp [front, Conversion.front]) hback fun j => ?_
    have hbody := (Phrase.closure_iff (x := "e") (j := .compared "e" (c.item t)) (by decide)).2
      fun i => hwhole.compared_iff (by decide)
    rw [put, Option.some.injEq, eq_comm, ← hbody, List.append_assoc, List.append_assoc, ←
      List.append_assoc c.front]
    rfl

/-- An expression that stands alone is read as a whole. -/
theorem reads_alone (h : Expresses p 1 text t) : alone.Reads p text (.expr t) := by
  obtain ⟨ts, us, hs, hc, hd⟩ := h
  have hus : .mark "." ∉ us := point_not_mem_of_isPlain hd.plainOperand.plain
  have halone : alone ∈ frames := .head _
  have htokens := tokens?_around halone hs
  refine .of_clones htokens hc hus (by simp [front]) rfl fun j => ?_
  rw [front, back, List.nil_append, List.append_nil, hd.phrase_iff (Nat.zero_le _), put,
    Option.some.injEq, eq_comm]

/-- A converted argument in its frame: it is an operand that the frame takes as a whole, or it stands
alone between the brackets of `Some`. -/
inductive Wraps (p : Prop) (t : Tree) : Frame → String → Prop
  | converted {frame : Frame} {text : String} (c : Conversion) :
    Expresses p 8 text t → frame.Reads p (c.text text) (c.item t) → Wraps p t frame (c.text text)
  | present {frame : Frame} {text : String} :
    Expresses p 1 text t → alone.Reads p text (.expr t) →
      Wraps p t frame ("Some(" ++ text ++ ")")
  | nested {frame : Frame} {text : String} :
    Wraps p t .alone text → Wraps p t frame ("Some(" ++ text ++ ")")

end Template.Frame

/-! ## Texts of arguments -/

/-- The tree of an argument where it is shown. -/
def Template.Shown.argTree (shown : Shown) (t : Tree) : Tree :=
  if shown.isCount then .cast t .usize else t

section

variable {p : Prop} {r : Registry} {cx : FnContext} {e : Expr} {t : Tree} {code : String}

/-- The text of an expression is of the level of the expression and of no tighter one. A binary
operator has blanks around it. -/
theorem Expr.HasTree.render_at (h : e.HasTree cx.registry t) (b : Bindings) (pos : ReadPosition) :
    Rendering.Returns (e.render cx b pos) fun p code =>
      ExpressesAt p e.level code t ∧ (e.level < 6 → ' ' ∈ code.toList) := by
  -- what is written without an operator is of the tightest level
  have htightest : e.level = 8 → Rendering.Returns (e.render cx b pos) fun p code =>
      ExpressesAt p e.level code t ∧ (e.level < 6 → ' ' ∈ code.toList) := by
    intro hlevel reads
    obtain ⟨code, new, hrun, hcode⟩ := h.render_returns b pos reads
    rw [hlevel] at hcode ⊢
    exact ⟨code, new, hrun, hcode.at_eight, by omega⟩
  cases h with
  | ident | number | bool | ternary => exact htightest rfl
  | unary h =>
    rw [Expr.render]
    exact (h.render_returns b .value).bind fun code => .pure fun _ _ hcode =>
      ⟨((h.operand hcode).unary_at _).mono And.left, fun hlt => absurd hlt (by decide : ¬7 < 6)⟩
  | binary hjoins h h' =>
    rw [Expr.render]
    simp only [hjoins, h.isNull, h'.isNull, Bool.and_false, Bool.false_eq_true, if_false]
    exact (h.render_returns b _).bind fun code => (h'.render_returns b _).bind fun code' =>
      .pure fun _ _ hcode' _ hcode =>
        ⟨Expresses.binary_at _ ((h.binaryOperand _ false hcode).mono And.left)
          ((h'.binaryOperand _ true hcode').mono fun hp => hp.2.1), fun _ => by simp⟩
  | cast htarget hp h =>
    rw [Expr.render]
    refine (h.render_returns b _).bind fun code => .pure fun _ _ hcode => ?_
    rw [htarget, castText, if_pos hp]
    · exact ⟨(((h.operand hcode).looser (by decide)).cast_at hp).mono And.left,
        fun hlt => absurd hlt (by decide : ¬6 < 6)⟩
    · rintro rfl
      cases hp

/-- A count is cast as a whole. -/
theorem Source.Expresses.asUsize {n : ℕ} (h : Expresses p n code t) (hn : 1 ≤ n)
    (hblank : n < 6 → ' ' ∈ code.toList) : Expresses p 6 (asUsize code) (.cast t .usize) := by
  unfold Oxidize.asUsize
  split
  next hplain =>
    have hsix : 6 ≤ n := by
      refine Nat.le_of_not_lt fun hlt => ?_
      exact absurd (List.all_eq_true.1 hplain ' ' (hblank hlt)) (by decide)
    have hcast := (h.looser hsix).cast (rfl : Prim.usize.isNumeric = true)
    rwa [String.append_assoc] at hcast
  next =>
    have hparen := (h.looser hn).paren.looser (by decide : 6 ≤ 8)
    have hcast := hparen.cast (rfl : Prim.usize.isNumeric = true)
    rw [String.append_assoc, String.append_assoc] at hcast
    rwa [String.append_assoc]

/-- The object of a method is an operand. -/
theorem Expr.HasTree.receiver (h : e.HasTree r t) (hcode : Expresses p e.level code t) :
    Expresses p 8 (receiverText e code) t := by
  refine hcode.parenthesizeIf e.level_pos (by decide) fun hwrap => ?_
  cases h with
  | ident | number | bool | ternary => exact Nat.le_refl 8
  | unary | binary | cast => cases hwrap

/-- A converted argument is left as it is or stands in its frame as a whole, however many layers are
converted. -/
theorem Expr.HasTree.coerceWithin (h : e.HasTree r t) (hcode : Expresses p e.level code t)
    (actual : Option Ty) (n : ℕ) (expected : Ty) {frame : Template.Frame}
    (hframe : frame ∈ elementFrames) :
    coerceWithin r e actual code n expected = code ∨
      frame.Wraps p t (coerceWithin r e actual code n expected) := by
  induction n generalizing expected frame with
  | zero => exact .inl rfl
  | succ n ih =>
    rw [Oxidize.coerceWithin]
    split
    · split
      · have hoperand := h.receiver hcode
        exact .inr (.converted .owned hoperand (Frame.reads_converted hframe .owned hoperand))
      · exact .inl rfl
    · split
      · right
        have halone : Frame.alone ∈ elementFrames := .head _
        rcases ih ‹Ty› halone with heq | hinner
        · rw [heq]
          have hone := hcode.looser e.level_pos
          exact .present hone (Frame.reads_alone hone)
        · exact .nested hinner
      · exact .inl rfl
    · split
      next hplace =>
        right
        have hplace := (Bool.and_eq_true_iff.1 hplace).1
        have height : e.level = 8 := by
          cases h with
          | ident => rfl
          | _ => cases hplace
        rw [height] at hcode
        split
        · exact .converted .borrowMut hcode (Frame.reads_converted hframe .borrowMut hcode)
        · exact .converted .borrow hcode (Frame.reads_converted hframe .borrow hcode)
      next => exact .inl rfl
    · exact .inl rfl

/-- A conversion leaves the text as it is, or wraps it up. -/
theorem Expr.HasTree.coerce (h : e.HasTree r t) (hcode : Expresses p e.level code t)
    (expected : Option Ty) {frame : Template.Frame}
    (hframe : expected.isSome = true → frame ∈ elementFrames) :
    coerce r e code expected = code ∨ frame.Wraps p t (coerce r e code expected) := by
  cases expected with
  | none => exact .inl rfl
  | some ty => exact h.coerceWithin hcode _ _ ty (hframe rfl)

end

/-! ## Arguments in calls -/

/-- What is shown of an argument stays whole in a frame exactly if the argument binds as tight as the
frame asks for. -/
theorem Template.Shown.keeps_iff {p : Prop} {shown : Shown} {frame : Frame}
    (hframe : frame ∈ shown.frames) {n : ℕ} {code : String} {t : Tree} (h : ExpressesAt p n code t)
    (hn : 1 ≤ n) (hblank : n < 6 → ' ' ∈ code.toList) :
    (frame.Keeps (shown.argText code) (shown.argTree t) ↔ frame.level ≤ n) ∧
      (p → Bare (frame.around (shown.argText code))) := by
  have halone : Frame.alone ∈ Template.frames := .head _
  cases shown with
  | arg => exact Frame.keeps_iff hframe h hn
  | list | formatted =>
    obtain rfl := List.mem_singleton.1 hframe
    exact Frame.keeps_iff halone h hn
  | size | range =>
    -- a count is a cast, which is whole where it is alone
    obtain rfl := List.mem_singleton.1 hframe
    have hreads := Frame.reads_alone ((h.expresses.asUsize hn hblank).looser (by decide : 1 ≤ 6))
    obtain ⟨ts, htokens, hbare, hphrase⟩ := hreads
    refine ⟨iff_of_true ⟨ts, htokens, fun i => ?_⟩ hn, fun hp us hus => ?_⟩
    · rw [hphrase, Frame.put, Option.some.injEq, eq_comm]
      rfl
    · cases htokens.symm.trans hus
      exact hbare hp

/-- The slots of a rule for arguments of the element type show them as they are, in frames for those
that are converted. -/
theorem Template.Slot.TakesElement.of_mem {table : Table} {rule : Rule} (hrule : rule ∈ table.rules)
    (helement : rule.elementArgs = true) {s : Slot} (hs : s ∈ slots (pieces rule.template)) :
    s.TakesElement :=
  (table.regular rule hrule).element helement s hs

/-- Each argument of a builtin that is shown stands in a frame of the template. Let the argument have
a tree of operators. It stays whole exactly if it binds as tight as the frame asks for, unless it is
converted, which wraps it up and leaves it whole. Both are read without clones, of which there are none
if no read is cloned. -/
theorem Expr.render_argument_whole_iff (cx : FnContext) (b : Bindings) (e : Expr) (d : Dispatch)
    (args : List Expr) (hcall : e.builtinCall? cx b = some (d, args)) (pos : ReadPosition)
    (reads after : List Read) (text : String)
    (hrun : (e.render cx b pos).run reads = .ok (text, after)) (s : Slot)
    (hs : s ∈ slots (pieces d.rule.template)) (shown : Shown) (hshown : shown? s.key = some shown)
    (i : ℕ) (hshows : shown.shows i = true) (arg : Expr) (harg : args[i]? = some arg) (t : Tree)
    (htree : arg.HasTree cx.registry t) :
    ∃ texts, text = d.rule.render texts ∧ ∃ argPos before code new expected,
      (arg.render cx b argPos).run before = .ok (code, before ++ new) ∧
      texts.args[i]? = some (coerce cx.registry arg code expected) ∧
      ∃ frame ∈ shown.frames,
        s.Puts frame d.rule texts (shown.argText (coerce cx.registry arg code expected)) ∧
        if coerce cx.registry arg code expected = code then
          (frame.Keeps (shown.argText code) (shown.argTree t) ↔ frame.level ≤ arg.level) ∧
            ((∀ rd ∈ new, rd.cloned = false) → Bare (frame.around (shown.argText code)))
        else
          frame.Wraps (∀ rd ∈ new, rd.cloned = false) t
            (shown.argText (coerce cx.registry arg code expected)) := by
  obtain ⟨hrule, texts, htext, -, hargs⟩ := Expr.render_builtinCall hcall hrun
  obtain ⟨argPos, before, code, read, expected, hcode, htexts, helement⟩ := hargs harg
  obtain ⟨code', new, hcode', hat, hblank⟩ := htree.render_at b argPos before
  cases hcode.symm.trans hcode'
  obtain ⟨frame, hframe, hputs⟩ := Slot.exists_puts hrule hs hshown hshows htexts
  refine ⟨texts, htext, argPos, before, code, new, expected, hcode, htexts, frame, hframe, hputs, ?_⟩
  split
  next => exact Shown.keeps_iff hframe hat arg.level_pos hblank
  next hne =>
    have htakes : expected.isSome = true → shown.isCount = false ∧ frame ∈ elementFrames := by
      intro hsome
      obtain ⟨hcount, hframes⟩ := Slot.TakesElement.of_mem hrule (helement hsome) hs shown hshown
      exact ⟨hcount, hframes frame (shown.frames_subset hframe) hputs.inFrame⟩
    have hwraps := (htree.coerce hat.expresses expected fun h => (htakes h).2).resolve_left hne
    cases expected with
    | none => exact absurd rfl hne
    | some ty =>
      rwa [Shown.argText, (htakes rfl).1, if_neg Bool.false_ne_true]

/-- `a + b`. -/
def Expr.plainSum : Expr :=
  ofKind (.binary .add (ofKind (.ident "a")) (ofKind (.ident "b")))

/-- `Math.floor(a + b)`. -/
def Expr.floorOfSum : Expr :=
  ofKind (.methodCall (ofKind (.ident "Math")) "floor" none [plainSum] none)

/-- In the call of the example the cast takes only the last summand of the argument. -/
theorem Expr.floorOfSum_argument :
    let cx : FnContext := ⟨.empty, .empty, ⟨[], [], []⟩, .void⟩
    let b := (Bindings.empty.declare "a").declare "b"
    let sum := Tree.binary .add (.name "a") (.name "b")
    plainSum.HasTree .empty sum ∧
    ∃ d texts, floorOfSum.builtinCall? cx b = some (d, [plainSum]) ∧
      d.rule.render texts = "(a + b as f64).floor()" ∧
      ∃ s ∈ slots (pieces d.rule.template), s.Puts (.cast .f64) d.rule texts "a + b" ∧
        ¬(Frame.cast .f64).Keeps "a + b" sum := by
  intro cx b sum
  have htree : plainSum.HasTree .empty sum :=
    .binary rfl (.ident (by decide +kernel)) (.ident (by decide +kernel))
  refine ⟨htree, ?_⟩
  obtain ⟨d, hcall, htemplate⟩ : ∃ d, floorOfSum.builtinCall? cx b = some (d, [plainSum]) ∧
      d.rule.template = "({0} as f64).floor()" := ⟨_, rfl, rfl⟩
  have hrun : ((floorOfSum.render cx b .value).run []).toOption =
      some ("(a + b as f64).floor()", []) := by
    decide +kernel
  cases hok : (floorOfSum.render cx b .value).run [] with
  | error _ =>
    rw [hok] at hrun
    cases hrun
  | ok result =>
    rw [hok] at hrun
    obtain rfl := Option.some.inj hrun
    obtain ⟨s, hs, hkey, hin⟩ : ∃ s ∈ slots (pieces d.rule.template), s.key = "0" ∧
        ∀ frame ∈ frames, s.InFrame frame → frame = .cast .f64 := by
      rw [htemplate]
      decide +kernel
    have hshown : shown? s.key = some (.arg 0) := by
      rw [hkey]
      decide +kernel
    obtain ⟨texts, htext, argPos, before, code, new, expected, hcode, -, frame, hframe, hputs, hiff⟩ :=
      Expr.render_argument_whole_iff cx b floorOfSum d _ hcall .value [] _ _ hok s hs (.arg 0) hshown 0
        rfl plainSum rfl sum htree
    obtain rfl := hin frame hframe hputs.inFrame
    have hrender : (plainSum.render cx b argPos).run before = .ok ("a + b", before) := by
      rfl
    have hresult := hcode.symm.trans hrender
    simp only [Except.ok.injEq, Prod.mk.injEq, List.append_right_eq_self] at hresult
    obtain ⟨rfl, rfl⟩ := hresult
    have hcoerce : coerce cx.registry plainSum "a + b" expected = "a + b" := by
      cases expected with
      | none => rfl
      | some ty =>
        obtain ⟨n, hcoerce⟩ := exists_coerce_eq cx.registry plainSum "a + b" ty
        rw [hcoerce, coerceWithin]
        split <;> rfl
    rw [hcoerce] at hputs
    rw [if_pos hcoerce] at hiff
    exact ⟨d, texts, hcall, htext.symm, s, hs, hputs,
      fun hkeeps => absurd (hiff.1.1 hkeeps) (by decide)⟩

/-- A function that returns the sum of its parameters, rounded down. -/
def FunctionDecl.floorOfSum : FunctionDecl :=
  ⟨.zero, "whole", [⟨"a", .f64, false⟩, ⟨"b", .f64, false⟩], .f64,
    .ofStmts [.ret .zero (some .floorOfSum)], false, none⟩

/-- What is cast before the sum is rounded down is `b`, not the sum. -/
theorem Program.floorOfSum_compile :
    (({ decls := [.function .floorOfSum] } : Program).compile {}).value.toOption.map (·.source) =
      some "fn whole(a: f64, b: f64) -> f64 \x7b\n    (a + b as f64).floor()\n\x7d\n" ∧
    ∃ ts, tokens? "a + b as f64" = some ts ∧
      ∀ i, Phrase 0 ts i ↔ i = .expr (.binary .add (.name "a") (.cast (.name "b") .f64)) := by
  refine ⟨by decide +kernel, _, rfl, fun i => ?_⟩
  have ha : Derives 4 [.word "a"] (.name "a") := (Derives.name (by decide +kernel)).looser (by decide)
  have hb : Derives 6 [.word "b"] (.name "b") := (Derives.name (by decide +kernel)).looser (by decide)
  have hcast : Derives 6 [.word "b", .word "as", .word "f64"] (.cast (.name "b") .f64) := hb.cast rfl
  exact (Derives.binary (s := "+") rfl ha (hcast.looser (by decide))).phrase_iff (by decide)

end Oxidize
