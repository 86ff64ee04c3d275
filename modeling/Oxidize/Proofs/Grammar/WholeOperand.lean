import Oxidize.Proofs.Grammar.Item

/-!
# Operands that are read as a whole

Whether the grammar of items reads some tokens as one operand is decided by their level. There is a
criterion for each way in which an item can have an operand: as the body of a closure
(`Phrase.closure_iff`), compared with what a reference refers to (`Phrase.compared_iff`), in front of
accesses to members (`Phrase.members_iff`) or of a cast (`Phrase.cast_iff`), and behind the mark of a
reference (`Phrase.borrow_iff`).

Operands that are no expressions, such as references and accesses to members, are read as a whole
wherever an operand of a unary operator may stand (`SoleOperand`).
-/

namespace Oxidize.Source

/-! ## Operands -/

/-- An expression of a level is read as a whole: none of the level ends earlier in it, unless it goes
on behind that. -/
theorem Derives.eq_nil_of_append {n : Nat} {us rest : List Token} {t u : Tree}
    (h : Derives n (us ++ rest) t) (h' : Derives n us u) (hstop : Stops n rest) :
    rest = [] ∧ t = u := by
  have hwhole := h.reads.1 [] (enough n (us ++ rest) + enough n us) (stops_nil n) (by omega)
  rw [List.append_nil, h'.reads.1 rest _ hstop (by omega)] at hwhole
  simp only [Option.some.injEq, Prod.mk.injEq] at hwhole
  exact ⟨hwhole.2, hwhole.1.symm⟩

/-- What starts with no unary operator does not when it is cut off. -/
theorem unary?_of_append {ts us : List Token} (hts : 0 < ts.length) (h : unary? (ts ++ us) = none) :
    unary? ts = none := by
  obtain ⟨x, ts, rfl⟩ := List.exists_cons_of_length_pos hts
  cases x with
  | mark s =>
    rw [List.cons_append, unary?, Option.map_eq_none_iff] at h
    rw [unary?, h, Option.map_none]
  | word | number => rfl

/-- An expression that no unary operator starts has an operand in front. -/
theorem Derives.exists_operand {n : Nat} {ts : List Token} {t : Tree} (h : Derives n ts t)
    (hts : unary? ts = none) : ∃ us rest u, ts = us ++ rest ∧ Derives 8 us u := by
  induction h with
  | tighter _ ih => exact ih hts
  | binary _ hl _ ihl _ =>
    obtain ⟨us, rest, u, rfl, hu⟩ := ihl (unary?_of_append hl.length_pos hts)
    exact ⟨us, _, u, List.append_assoc .., hu⟩
  | cast _ hd ih =>
    obtain ⟨us, rest, u, rfl, hu⟩ := ih (unary?_of_append hd.length_pos hts)
    exact ⟨us, _, u, List.append_assoc .., hu⟩
  | unary hs => simp [unary?, hs] at hts
  | name hw => exact ⟨_, [], _, (List.append_nil _).symm, .name hw⟩
  | number hs => exact ⟨_, [], _, (List.append_nil _).symm, .number hs⟩
  | bool hw => exact ⟨_, [], _, (List.append_nil _).symm, .bool hw⟩
  | paren h => exact ⟨_, [], _, (List.append_nil _).symm, .paren h⟩
  | ifElse hc ht he => exact ⟨_, [], _, (List.append_nil _).symm, .ifElse hc ht he⟩

/-- A mark that no expression starts with is not in front of one, whatever follows it. -/
theorem Derives.append_ne_mark {n : Nat} {ts : List Token} {t : Tree} (h : Derives n ts t) {s : String}
    (hs : s ∈ ["&", "|", ".", "*", "&&"]) (us ws : List Token) : ts ++ us ≠ .mark s :: ws := by
  intro heq
  obtain ⟨x, ts, rfl⟩ := List.exists_cons_of_length_pos h.length_pos
  rw [List.cons_append, List.cons.injEq] at heq
  obtain ⟨rfl, -⟩ := heq
  exact h.not_mark hs

/-! ## Closures -/

/-- The left operand of an operator has a level of the grammar. -/
theorem leftLevel_pos (op : BinOp) : 1 ≤ leftLevel op := by
  cases op <;> decide

/-- An item that a bar starts is a closure, of the loosest level. -/
theorem Phrase.exists_closure {n : Nat} {us : List Token} {i : Item} (h : Phrase n (.mark "|" :: us) i) :
    n = 0 ∧ ∃ x ts j, us = .word x :: .mark "|" :: ts ∧ i = .closure x j ∧ Phrase 0 ts j := by
  generalize hw : Token.mark "|" :: us = ws at h
  induction h generalizing us with
  | tighter _ ih => exact absurd (ih hw).1 (Nat.succ_ne_zero _)
  | expr hd =>
    subst hw
    exact absurd hd.not_mark (by decide)
  | apply hs =>
    cases hw
    cases hs
  | borrowMut | double => simp at hw
  | cast _ h ih =>
    obtain ⟨x, ts, rfl⟩ := List.exists_cons_of_ne_nil h.ne_nil
    cases hw
    exact absurd (ih rfl).1 (by decide)
  | @binary _ op _ _ _ _ _ h _ ih _ =>
    obtain ⟨x, ts, rfl⟩ := List.exists_cons_of_ne_nil h.ne_nil
    cases hw
    have := leftLevel_pos op
    have := (ih rfl).1
    omega
  | members _ hd => exact absurd hw.symm (hd.append_ne_mark (by decide) _ _)
  | closure _ h =>
    cases hw
    exact ⟨rfl, _, _, _, rfl, rfl, h⟩

/-- A closure goes as far as its item, so all that follows the parameter is its body. -/
theorem Phrase.closure_iff {x : String} {ts : List Token} {j : Item} (hx : isName x = true) :
    (∀ i, Phrase 0 (.mark "|" :: .word x :: .mark "|" :: ts) i ↔ i = .closure x j) ↔
      ∀ i, Phrase 0 ts i ↔ i = j := by
  have hbody : ∀ i, Phrase 0 (.mark "|" :: .word x :: .mark "|" :: ts) i ↔
      ∃ k, i = .closure x k ∧ Phrase 0 ts k := by
    intro i
    constructor
    · intro h
      obtain ⟨-, y, us, k, heq, rfl, hk⟩ := h.exists_closure
      cases heq
      exact ⟨k, rfl, hk⟩
    · rintro ⟨k, rfl, hk⟩
      exact .closure hx hk
  simp only [hbody]
  constructor
  · intro h i
    simpa using h (.closure x i)
  · intro h i
    simp [h]

/-! ## Operands of unary operators -/

/-- Nothing, a cast or a binary operator comes next. -/
def Continues (rest : List Token) : Prop :=
  ∀ x ∈ rest.head?, x = .word "as" ∨ ∃ s op, x = .mark s ∧ binOp? s = some op

namespace Continues

variable {rest rest' : List Token}

/-- The tokens may end. -/
theorem nil : Continues [] := by
  simp [Continues]

/-- A cast may come next. -/
theorem cast (rest : List Token) : Continues (.word "as" :: rest) := by
  simp [Continues]

/-- A binary operator may come next. -/
theorem operator {s : String} {op : BinOp} (hs : binOp? s = some op) (rest : List Token) :
    Continues (.mark s :: rest) := by
  rintro x ⟨⟩
  exact .inr ⟨s, op, rfl, hs⟩

/-- What comes next is told by the first part, unless it is empty. -/
theorem append (h : Continues rest) (h' : Continues rest') : Continues (rest ++ rest') := by
  cases rest with
  | nil => exact h'
  | cons x rest => exact h

/-- No access to a member comes next. -/
theorem ne_point (h : Continues (.mark "." :: rest)) : False := by
  rcases h _ rfl with heq | ⟨s, op, heq, hs⟩
  · cases heq
  · cases heq
    cases hs

end Continues

/-- An expression is an operand of unary operators, with a cast or a binary operator behind it unless
there is nothing else. -/
theorem Derives.exists_continues {n : Nat} {ts : List Token} {t : Tree} (h : Derives n ts t) :
    ∃ us rest u, ts = us ++ rest ∧ Continues rest ∧ Derives 7 us u ∧ (rest = [] → t = u) := by
  have whole : ∀ {ts : List Token} {t : Tree}, Derives 7 ts t →
      ∃ us rest u, ts = us ++ rest ∧ Continues rest ∧ Derives 7 us u ∧ (rest = [] → t = u) :=
    fun hd => ⟨_, [], _, (List.append_nil _).symm, .nil, hd, fun _ => rfl⟩
  induction h with
  | tighter _ ih => exact ih
  | binary hs _ _ ihl _ =>
    obtain ⟨us, rest, u, rfl, hrest, hu, -⟩ := ihl
    exact ⟨us, _, u, List.append_assoc .., hrest.append (.operator hs _), hu, by simp⟩
  | cast _ _ ih =>
    obtain ⟨us, rest, u, rfl, hrest, hu, -⟩ := ih
    exact ⟨us, _, u, List.append_assoc .., hrest.append (.cast _), hu, by simp⟩
  | unary hs hd => exact whole (hd.unary hs)
  | name hw => exact whole ((Derives.name hw).looser (by decide))
  | number hs => exact whole ((Derives.number hs).looser (by decide))
  | bool hw => exact whole ((Derives.bool hw).looser (by decide))
  | paren h => exact whole (h.paren.looser (by decide))
  | ifElse hc ht he => exact whole ((Derives.ifElse hc ht he).looser (by decide))

/-- An item that is no closure is an operand of unary operators, with a cast or a binary operator behind
it unless there is nothing else. -/
theorem Phrase.exists_continues {n : Nat} {ts : List Token} {i : Item} (h : Phrase n ts i) :
    (n = 0 ∧ ∃ us, ts = .mark "|" :: us) ∨
      ∃ us rest j, ts = us ++ rest ∧ Continues rest ∧ Phrase 7 us j ∧ (rest = [] → i = j) := by
  have whole : ∀ {ts : List Token} {i : Item}, Phrase 7 ts i →
      ∃ us rest j, ts = us ++ rest ∧ Continues rest ∧ Phrase 7 us j ∧ (rest = [] → i = j) :=
    fun h => ⟨_, [], _, (List.append_nil _).symm, .nil, h, fun _ => rfl⟩
  induction h with
  | tighter _ ih => exact .inr (ih.resolve_left fun h => Nat.succ_ne_zero _ h.1)
  | expr hd =>
    obtain ⟨us, rest, u, heq, hrest, hu, hwhole⟩ := hd.exists_continues
    exact .inr ⟨us, rest, .expr u, heq, hrest, .expr hu, fun hnil => by rw [hwhole hnil]⟩
  | apply hs h => exact .inr (whole (.apply hs h))
  | borrowMut h => exact .inr (whole h.borrowMut)
  | double h => exact .inr (whole h.double)
  | cast _ _ ih =>
    obtain ⟨us, rest, j, rfl, hrest, hj, -⟩ := ih.resolve_left fun h => absurd h.1 (by decide)
    exact .inr ⟨us, _, j, List.append_assoc .., hrest.append (.cast _), hj, by simp⟩
  | @binary _ op _ _ _ _ hs _ _ ihl _ =>
    have hlevel := leftLevel_pos op
    obtain ⟨us, rest, j, rfl, hrest, hj, -⟩ := ihl.resolve_left fun h => by omega
    exact .inr ⟨us, _, j, List.append_assoc .., hrest.append (.operator hs _), hj, by simp⟩
  | members hchain hd => exact .inr (whole (Phrase.members hchain hd).tighter)
  | closure => exact .inl ⟨rfl, _, rfl⟩

/-- What an operand of unary operators is. -/
theorem Phrase.cases_operand {n : Nat} {ts : List Token} {i : Item} (h : Phrase n ts i) (hn : 7 ≤ n) :
    (∃ t, i = .expr t ∧ Derives 7 ts t) ∨
    (∃ s op us j, prefixOp? s = some op ∧ ts = .mark s :: us ∧ i = j.apply op ∧ Phrase 7 us j) ∨
    (∃ us j, ts = .mark "&" :: .word "mut" :: us ∧ i = .prefixed .borrowMut j ∧ Phrase 7 us j) ∨
    (∃ us j, ts = .mark "&&" :: us ∧ i = .prefixed .borrow j ∧ Phrase 7 (.mark "&" :: us) j) ∨
    ∃ us vs t, ts = us ++ vs ∧ i = .members t vs ∧ Chain.run vs = some .closed ∧ Derives 8 us t := by
  induction h with
  | tighter _ ih => exact ih (by omega)
  | expr hd => exact .inl ⟨_, rfl, hd.looser hn⟩
  | apply hs h => exact .inr (.inl ⟨_, _, _, _, hs, rfl, rfl, h⟩)
  | borrowMut h => exact .inr (.inr (.inl ⟨_, _, rfl, rfl, h⟩))
  | double h => exact .inr (.inr (.inr (.inl ⟨_, _, rfl, rfl, h⟩)))
  | members hchain hd => exact .inr (.inr (.inr (.inr ⟨_, _, _, rfl, rfl, hchain, hd⟩)))
  | @binary _ op =>
    have := level_le op
    omega
  | cast | closure => omega

/-- A word that an expression starts with names a value or is a truth value, or it starts a
conditional. -/
theorem Derives.head_word {n : Nat} {w : String} {ts : List Token} {t : Tree}
    (h : Derives n (.word w :: ts) t) : w = "if" ∨ isName w = true ∨ (truth? w).isSome = true := by
  generalize hw : Token.word w :: ts = ws at h
  induction h generalizing ts with
  | tighter _ ih => exact ih hw
  | binary _ hl _ ihl _ =>
    obtain ⟨x, us, rfl⟩ := List.exists_cons_of_length_pos hl.length_pos
    cases hw
    exact ihl rfl
  | cast _ hd ih =>
    obtain ⟨x, us, rfl⟩ := List.exists_cons_of_length_pos hd.length_pos
    cases hw
    exact ih rfl
  | name hname =>
    cases hw
    exact .inr (.inl hname)
  | bool htruth =>
    cases hw
    exact .inr (.inr (by rw [htruth]; rfl))
  | ifElse =>
    cases hw
    exact .inl rfl
  | unary | number | paren => cases hw

/-- The word `mut` starts no operand. -/
theorem Phrase.head_ne_mut {ts : List Token} {i : Item} : ¬ Phrase 7 (.word "mut" :: ts) i := by
  have hderives : ∀ {n us t}, ¬ Derives n (.word "mut" :: us) t := fun h =>
    absurd h.head_word (by decide +kernel)
  intro h
  rcases h.cases_operand (Nat.le_refl 7) with ⟨_, -, hd⟩ | ⟨_, _, _, _, -, ⟨⟩, -⟩ | ⟨_, _, ⟨⟩, -⟩ |
    ⟨_, _, ⟨⟩, -⟩ | ⟨us, vs, _, heq, -, -, hd⟩
  · exact hderives hd
  · obtain ⟨x, us, rfl⟩ := List.exists_cons_of_length_pos hd.length_pos
    cases heq
    exact hderives hd

/-- A mark of references starts no expression, nor accesses to members of one. -/
theorem Phrase.cases_reference {s : String} (hs : s ∈ ["&", "*", "&&"]) {us : List Token} {i : Item}
    (h : Phrase 7 (.mark s :: us) i) :
    (∃ op j, prefixOp? s = some op ∧ i = j.apply op ∧ Phrase 7 us j) ∨
    (∃ vs j, s = "&" ∧ us = .word "mut" :: vs ∧ i = .prefixed .borrowMut j ∧ Phrase 7 vs j) ∨
    ∃ j, s = "&&" ∧ i = .prefixed .borrow j ∧ Phrase 7 (.mark "&" :: us) j := by
  have hderives : ∀ {n ts t}, ¬ Derives n (.mark s :: ts) t := by
    intro n ts t hd
    have hnot := hd.not_mark
    simp only [List.mem_cons, List.not_mem_nil, or_false] at hs
    rcases hs with rfl | rfl | rfl <;> simp at hnot
  rcases h.cases_operand (Nat.le_refl 7) with ⟨_, -, hd⟩ | ⟨_, op, _, j, hop, ⟨⟩, hi, hj⟩ |
    ⟨vs, j, ⟨⟩, hi, hj⟩ | ⟨_, j, ⟨⟩, hi, hj⟩ | ⟨ts, vs, _, heq, -, -, hd⟩
  · exact absurd hd hderives
  · exact .inl ⟨op, j, hop, hi, hj⟩
  · exact .inr (.inl ⟨vs, j, rfl, rfl, hi, hj⟩)
  · exact .inr (.inr ⟨j, rfl, hi, hj⟩)
  · obtain ⟨x, ts, rfl⟩ := List.exists_cons_of_length_pos hd.length_pos
    cases heq
    exact absurd hd hderives

/-- The tokens are an operand of a unary operator with the tree, and no part in front of a cast or a
binary operator among them is one. -/
structure SoleOperand (ts : List Token) (i : Item) : Prop where
  phrase : Phrase 7 ts i
  unique : ∀ {us rest : List Token} {j : Item}, ts = us ++ rest → Continues rest → Phrase 7 us j →
    rest = [] ∧ j = i

/-- An expression that may follow a unary operator is a whole operand. -/
theorem Derives.soleOperand {ts : List Token} {t : Tree} (h : Derives 7 ts t) :
    SoleOperand ts (.expr t) where
  phrase := .expr h
  unique {us rest j} heq _ hj := by
    subst heq
    have hplain := h.plainOperand.plain
    rw [isPlain_append, Bool.and_eq_true] at hplain
    obtain ⟨u, rfl, hu⟩ := hj.eq_expr hplain.1
    obtain ⟨hrest, rfl⟩ := h.eq_nil_of_append hu (stops_unary rest)
    exact ⟨hrest, rfl⟩

namespace SoleOperand

variable {ts : List Token} {i j : Item} {s : String} {op : PrefixOp}

/-- The tokens have one tree, on every level that they can be read on. -/
theorem phrase_iff (h : SoleOperand ts i) {n : Nat} (hn : n ≤ 7) : Phrase n ts j ↔ j = i := by
  constructor
  · intro hj
    rcases hj.exists_continues with ⟨-, us, rfl⟩ | ⟨us, rest, k, heq, hrest, hk, hwhole⟩
    · exact absurd h.phrase.exists_closure.1 (by decide)
    · obtain ⟨rfl, rfl⟩ := h.unique heq hrest hk
      exact hwhole rfl
  · rintro rfl
    exact h.phrase.looser hn

/-- A reference to an operand, or what one refers to. -/
theorem apply (h : SoleOperand ts i) (hs : s = "&" ∨ s = "*") (hop : prefixOp? s = some op) :
    SoleOperand (.mark s :: ts) (i.apply op) where
  phrase := .apply hop h.phrase
  unique {us rest j} heq hrest hj := by
    obtain ⟨x, us, rfl⟩ := List.exists_cons_of_ne_nil hj.ne_nil
    cases heq
    have hmem : s ∈ ["&", "*", "&&"] := by rcases hs with rfl | rfl <;> decide
    rcases hj.cases_reference hmem with ⟨op', k, hop', rfl, hk⟩ | ⟨vs, k, rfl, rfl, -⟩ | ⟨k, rfl, -⟩
    · cases hop.symm.trans hop'
      obtain ⟨rfl, rfl⟩ := h.unique rfl hrest hk
      exact ⟨rfl, rfl⟩
    · exact absurd h.phrase Phrase.head_ne_mut
    · exact absurd hs (by decide)

/-- A reference to an operand through which it may change. -/
theorem borrowMut (h : SoleOperand ts i) :
    SoleOperand (.mark "&" :: .word "mut" :: ts) (.prefixed .borrowMut i) where
  phrase := h.phrase.borrowMut
  unique {us rest j} heq hrest hj := by
    obtain ⟨x, us, rfl⟩ := List.exists_cons_of_ne_nil hj.ne_nil
    rw [List.cons_append, List.cons.injEq] at heq
    obtain ⟨rfl, heq⟩ := heq
    rcases hj.cases_reference (by decide) with ⟨_, k, -, -, hk⟩ | ⟨vs, k, -, rfl, rfl, hk⟩ |
      ⟨k, hs, -⟩
    · obtain ⟨y, us, rfl⟩ := List.exists_cons_of_ne_nil hk.ne_nil
      cases heq
      exact absurd hk Phrase.head_ne_mut
    · cases heq
      obtain ⟨rfl, rfl⟩ := h.unique rfl hrest hk
      exact ⟨rfl, rfl⟩
    · exact absurd hs (by decide)

/-- A reference to a reference. -/
theorem double (h : SoleOperand (.mark "&" :: ts) i) :
    SoleOperand (.mark "&&" :: ts) (.prefixed .borrow i) where
  phrase := h.phrase.double
  unique {us rest j} heq hrest hj := by
    obtain ⟨x, us, rfl⟩ := List.exists_cons_of_ne_nil hj.ne_nil
    cases heq
    rcases hj.cases_reference (by decide) with ⟨_, k, hop, -⟩ | ⟨_, _, hs, -⟩ | ⟨k, -, rfl, hk⟩
    · cases hop
    · exact absurd hs (by decide)
    · obtain ⟨rfl, rfl⟩ := h.unique (List.cons_append ..) hrest hk
      exact ⟨rfl, rfl⟩

end SoleOperand

/-! ## Comparisons with what a reference refers to -/

/-- The comparison of what a reference of a name refers to. -/
def Item.compared (x : String) (i : Item) : Item :=
  .binary .eq (.prefixed .deref (.expr (.name x))) i

/-- A name is the whole operand that a name starts. -/
theorem Derives.eq_singleton {x : String} (hx : isName x = true) {rest : List Token} {t : Tree}
    (h : Derives 7 (.word x :: rest) t) : rest = [] :=
  have hname : Derives 7 [.word x] (.name x) := (Derives.name hx).looser (by decide)
  (h.eq_nil_of_append hname (stops_unary rest)).1

/-- No operand goes on with a comparison behind a name. -/
theorem Phrase.not_compared {x : String} (hx : isName x = true) {us : List Token} {i : Item} :
    ¬ Phrase 7 (.word x :: .mark "==" :: us) i := by
  have hderives : ∀ {ts t}, Derives 7 (.word x :: ts) t → ts = [] := fun hd => hd.eq_singleton hx
  intro h
  rcases h.cases_operand (Nat.le_refl 7) with ⟨_, -, hd⟩ | ⟨_, _, _, _, -, heq, -⟩ | ⟨_, _, heq, -⟩ |
    ⟨_, _, heq, -⟩ | ⟨ts, vs, _, heq, -, hchain, hd⟩
  · exact absurd (hderives hd) (by simp)
  · cases heq
  · cases heq
  · cases heq
  · obtain ⟨y, ts, rfl⟩ := List.exists_cons_of_length_pos hd.length_pos
    rw [List.cons_append, List.cons.injEq] at heq
    obtain ⟨rfl, heq⟩ := heq
    obtain rfl := hderives (hd.looser (by decide))
    rw [List.nil_append] at heq
    subst heq
    exact absurd (Chain.run_cons hchain) (by decide)

/-- An item that starts with the comparison of what a reference refers to is looser than operands of
comparisons. It compares with all of the rest, or a logical operator follows. -/
theorem Phrase.exists_compared {n : Nat} {x : String} (hx : isName x = true) {us : List Token}
    {i : Item} (h : Phrase n (.mark "*" :: .word x :: .mark "==" :: us) i) :
    n ≤ 3 ∧ ∃ us₁ us₂ j, us = us₁ ++ us₂ ∧ Phrase 4 us₁ j ∧
      ((us₂ = [] ∧ i = .compared x j) ∨
        (∀ l r, i ≠ .binary .eq l r) ∧
          ∃ s op rest, us₂ = .mark s :: rest ∧ binOp? s = some op ∧ level op ≤ 2) := by
  have hname : SoleOperand [.word x] (.expr (.name x)) :=
    ((Derives.name hx).looser (by decide)).soleOperand
  generalize hw : Token.mark "*" :: .word x :: .mark "==" :: us = ws at h
  induction h generalizing us with
  | tighter _ ih =>
    obtain ⟨hn, h⟩ := ih hw
    exact ⟨by omega, h⟩
  | expr hd =>
    subst hw
    exact absurd hd.not_mark (by decide)
  | borrowMut | double => simp at hw
  | apply _ h =>
    -- the reference would have to reach over the comparison
    cases hw
    exact absurd h (Phrase.not_compared hx)
  | @cast w p ts i _ h ih =>
    rcases ts with _ | ⟨a, _ | ⟨b, _ | ⟨c, us'⟩⟩⟩
    · exact absurd rfl h.ne_nil
    · simp at hw
    · simp at hw
    · simp only [List.cons_append, List.cons.injEq] at hw
      obtain ⟨rfl, rfl, rfl, rfl⟩ := hw
      exact absurd (ih rfl).1 (by decide)
  | @binary s op ts rs l r hs hl hr ihl _ =>
    rcases ts with _ | ⟨a, _ | ⟨b, _ | ⟨c, us'⟩⟩⟩
    · exact absurd rfl hl.ne_nil
    · simp at hw
    · simp only [List.cons_append, List.nil_append, List.cons.injEq, Token.mark.injEq] at hw
      obtain ⟨rfl, rfl, rfl, rfl⟩ := hw
      cases hs
      rw [(hname.apply (s := "*") (.inr rfl) rfl).phrase_iff (by decide)] at hl
      exact ⟨Nat.le_refl _, us, [], r, (List.append_nil us).symm, hr, .inl ⟨rfl, by rw [hl]; rfl⟩⟩
    · simp only [List.cons_append, List.cons.injEq] at hw
      obtain ⟨rfl, rfl, rfl, rfl⟩ := hw
      obtain ⟨hn, us₁, us₂, j, rfl, hj, hrest⟩ := ihl rfl
      have hlevel : level op ≤ 2 := by
        revert hn
        cases op <;> decide
      refine ⟨by omega, us₁, _, j, List.append_assoc .., hj, .inr ⟨fun l' r' heq => ?_, ?_⟩⟩
      · have hop : op ≠ .eq := by
          rintro rfl
          exact absurd hlevel (by decide)
        cases l <;> cases r <;> simp [Item.join, hop] at heq
      rcases hrest with ⟨rfl, -⟩ | ⟨-, s', op', rest, rfl, hs', hlevel'⟩
      · exact ⟨s, op, rs, rfl, hs, hlevel⟩
      · exact ⟨s', op', _, rfl, hs', hlevel'⟩
  | members _ hd => exact absurd hw.symm (hd.append_ne_mark (by decide) _ _)
  | closure => simp at hw

/-- An operand of comparisons may be compared. -/
theorem Phrase.compared {x : String} (hx : isName x = true) {ts : List Token} {i : Item}
    (h : Phrase 4 ts i) : Phrase 0 (.mark "*" :: .word x :: .mark "==" :: ts) (.compared x i) := by
  have hname : Phrase 7 [.word x] (.expr (.name x)) := .expr ((Derives.name hx).looser (by decide))
  have hleft := (Phrase.apply (s := "*") rfl hname).looser (m := 4) (by decide)
  exact (Phrase.binary (s := "==") rfl hleft h).looser (by decide)

/-- What follows the comparison is compared as a whole exactly if it is an operand of comparisons. -/
theorem Phrase.compared_iff {x : String} (hx : isName x = true) {ts : List Token} {t : Tree}
    (hts : isPlain false ts = true) :
    (∀ i, Phrase 0 (.mark "*" :: .word x :: .mark "==" :: ts) i ↔ i = .compared x (.expr t)) ↔
      Derives 4 ts t := by
  constructor
  · intro h
    obtain ⟨-, us₁, us₂, j, rfl, hj, hcases⟩ := ((h _).2 rfl).exists_compared hx
    rcases hcases with ⟨rfl, heq⟩ | ⟨hne, -⟩
    · rw [List.append_nil] at hts ⊢
      obtain ⟨u, rfl, hu⟩ := hj.eq_expr hts
      obtain rfl : t = u := by simpa [Item.compared] using heq
      exact hu
    · exact absurd rfl (hne _ _)
  · intro hd i
    constructor
    · intro h
      obtain ⟨-, us₁, us₂, j, rfl, hj, hcases⟩ := h.exists_compared hx
      rw [isPlain_append, Bool.and_eq_true] at hts
      obtain ⟨u, rfl, hu⟩ := hj.eq_expr hts.1
      rcases hcases with ⟨rfl, rfl⟩ | ⟨-, s, op, rest, rfl, hs, hlevel⟩
      · rw [List.append_nil] at hd
        rw [hd.unique hu]
      · have hstop : Stops 4 (.mark s :: rest) := (stops_operator hs rest).tighter (by omega)
        exact absurd (hd.eq_nil_of_append hu hstop).1 (by simp)
    · rintro rfl
      exact Phrase.compared hx (.expr hd)

/-- An operand of unary operators is compared as a whole. -/
theorem SoleOperand.compared_iff {x : String} (hx : isName x = true) {ts : List Token} {i j : Item}
    (h : SoleOperand ts i) :
    Phrase 0 (.mark "*" :: .word x :: .mark "==" :: ts) j ↔ j = .compared x i := by
  constructor
  · intro hj
    obtain ⟨-, us₁, us₂, k, rfl, hk, hcases⟩ := hj.exists_compared hx
    obtain ⟨vs, rest, k', rfl, hrest, hk', hwhole⟩ :=
      hk.exists_continues.resolve_left fun h => absurd h.1 (by decide)
    have hus₂ : Continues us₂ := by
      rcases hcases with ⟨rfl, -⟩ | ⟨-, s, op, rest', rfl, hs, -⟩
      · exact .nil
      · exact .operator hs rest'
    -- the operand that is compared first reaches up to the end of the tokens
    obtain ⟨hnil, rfl⟩ := h.unique (List.append_assoc ..) (hrest.append hus₂) hk'
    obtain ⟨rfl, rfl⟩ := List.append_eq_nil_iff.1 hnil
    rcases hcases with ⟨-, rfl⟩ | ⟨-, s, op, rest', heq, -⟩
    · rw [hwhole rfl]
    · cases heq
  · rintro rfl
    exact Phrase.compared hx (h.phrase.looser (by decide))

/-! ## Members -/

/-- Accesses to members that are complete go on with a point only. -/
theorem Chain.run_append_cons {us rest : List Token} {x : Token} {c : Chain}
    (hus : run us = some .closed) (h : run (us ++ x :: rest) = some c) : x = .mark "." := by
  rw [run] at hus h
  rw [List.foldlM_append, hus, Option.bind_eq_bind, Option.bind_some, List.foldlM_cons] at h
  obtain ⟨next, hstep, -⟩ := Option.bind_eq_some_iff.1 h
  unfold step at hstep
  split at hstep <;> simp_all

/-- The first part of accesses to members can be read. -/
theorem Chain.exists_run_of_append {us rest : List Token} {c : Chain}
    (h : run (us ++ rest) = some c) : ∃ c', run us = some c' := by
  rw [run, List.foldlM_append] at h
  obtain ⟨c', hrun, -⟩ := Option.bind_eq_some_iff.1 h
  exact ⟨c', hrun⟩

/-- Accesses to members behind an operand are of the whole operand, and nothing follows them. -/
theorem Phrase.eq_members {ts : List Token} {t : Tree} (hts : Derives 8 ts t) {n : Nat}
    {us : List Token} {i : Item} (h : Phrase n (ts ++ us) i) (hus : us ≠ []) {c : Chain}
    (hrun : Chain.run us = some c) : Chain.run us = some .closed ∧ i = .members t us := by
  generalize hw : ts ++ us = ws at h
  induction h generalizing us c with
  | tighter _ ih => exact ih hus hrun hw
  | expr hd =>
    subst hw
    obtain ⟨x, us, rfl⟩ := List.exists_cons_of_ne_nil hus
    have hplain := hd.plainOperand.plain
    rw [Chain.run_cons hrun, isPlain_append] at hplain
    simp [isPlain] at hplain
  | apply hs _ =>
    obtain ⟨x, ts, rfl⟩ := List.exists_cons_of_length_pos hts.length_pos
    rw [List.cons_append, List.cons.injEq] at hw
    obtain ⟨rfl, -⟩ := hw
    rcases prefixOp?_eq_some hs with ⟨op, hunary, -⟩ | ⟨rfl, -⟩ | ⟨rfl, -⟩
    · have := hts.unary?_eq_none rfl []
      simp [unary?, hunary] at this
    · exact absurd hts.not_mark (by decide)
    · exact absurd hts.not_mark (by decide)
  | borrowMut | double => exact absurd hw (hts.append_ne_mark (by decide) _ _)
  | @cast w p ws i _ h ih =>
    rcases List.append_eq_append_iff.1 hw with ⟨vs, rfl, rfl⟩ | ⟨vs, rfl, hvs⟩
    · by_cases hnil : vs = []
      · subst hnil
        exact absurd (Chain.run_cons hrun) (by simp)
      · obtain ⟨c', hrun'⟩ := Chain.exists_run_of_append hrun
        exact absurd (Chain.run_append_cons (ih hnil hrun' rfl).1 hrun) (by simp)
    · obtain ⟨x, us, rfl⟩ := List.exists_cons_of_ne_nil hus
      have hmem : x ∈ [Token.word "as", .word w] := hvs ▸ List.mem_append_right _ (.head _)
      rw [Chain.run_cons hrun] at hmem
      simp at hmem
  | @binary s op ws rs l r hs hl hr ihl _ =>
    have hpoint : Token.mark s ≠ .mark "." := by
      rintro ⟨⟩
      cases hs
    rcases List.append_eq_append_iff.1 hw with ⟨vs, rfl, rfl⟩ | ⟨vs, rfl, hvs⟩
    · by_cases hnil : vs = []
      · subst hnil
        exact absurd (Chain.run_cons hrun) hpoint
      · obtain ⟨c', hrun'⟩ := Chain.exists_run_of_append hrun
        exact absurd (Chain.run_append_cons (ihl hnil hrun' rfl).1 hrun) hpoint
    · cases vs with
      | nil =>
        rw [List.nil_append] at hvs
        subst hvs
        exact absurd (Chain.run_cons hrun) hpoint
      | cons y vs =>
        -- the operator would be inside the operand, behind an operand that ends before it
        have hplain := hts.plainOperand.plain
        rw [isPlain_append, Bool.and_eq_true] at hplain
        obtain ⟨u, rfl, hu⟩ := hl.eq_expr hplain.1
        have hunary := hts.unary?_eq_none rfl []
        rw [List.append_nil] at hunary
        obtain ⟨us₁, rest, v, rfl, hv⟩ := hu.exists_operand (unary?_of_append hu.length_pos hunary)
        rw [List.append_assoc] at hts
        have hnil := (hts.eq_nil_of_append hv ((stops_unary _).tighter (by decide))).1
        exact absurd hnil (by simp)
  | @members ws us' t' hchain hd =>
    have hstop : ∀ rest, Stops 8 rest := fun rest => (stops_unary rest).tighter (by decide)
    rcases List.append_eq_append_iff.1 hw with ⟨vs, rfl, rfl⟩ | ⟨vs, rfl, hvs⟩
    · obtain ⟨rfl, rfl⟩ := hd.eq_nil_of_append hts (hstop vs)
      exact ⟨hchain, rfl⟩
    · obtain ⟨rfl, rfl⟩ := hts.eq_nil_of_append hd (hstop vs)
      rw [List.nil_append] at hvs
      subst hvs
      exact ⟨hchain, rfl⟩
  | closure => exact absurd hw (hts.append_ne_mark (by decide) _ _)

/-- Accesses to members of an operand are an operand of unary operators. -/
theorem Derives.soleOperand_members {ts us : List Token} {t : Tree} (hts : Derives 8 ts t)
    (hchain : Chain.run us = some .closed) : SoleOperand (ts ++ us) (.members t us) where
  phrase := (Phrase.members hchain hts).tighter
  unique {vs rest j} heq hrest hj := by
    have hus : ∀ {rest}, us = rest → ¬ Continues rest := by
      rintro rest rfl hrest
      cases us with
      | nil => cases hchain
      | cons x us =>
        rw [Chain.run_cons hchain] at hrest
        exact hrest.ne_point
    rcases List.append_eq_append_iff.1 heq with ⟨as, rfl, rfl⟩ | ⟨as, rfl, rfl⟩
    · by_cases has : as = []
      · subst has
        exact absurd hrest (hus rfl)
      · obtain ⟨c, hrun⟩ := Chain.exists_run_of_append hchain
        obtain ⟨hclosed, rfl⟩ := hj.eq_members hts has hrun
        cases rest with
        | nil => exact ⟨rfl, by rw [List.append_nil]⟩
        | cons x rest =>
          rw [Chain.run_append_cons hclosed hchain] at hrest
          exact hrest.ne_point.elim
    · have hplain := hts.plainOperand.plain
      rw [isPlain_append, Bool.and_eq_true] at hplain
      obtain ⟨u, rfl, hu⟩ := hj.eq_expr hplain.1
      obtain ⟨rfl, -⟩ := (hts.looser (by decide)).eq_nil_of_append hu (stops_unary as)
      exact absurd hrest (hus rfl)

/-- Accesses to members are made to an operand. -/
theorem Phrase.of_members {n : Nat} {ts us : List Token} {t : Tree}
    (h : Phrase n (ts ++ us) (.members t us)) : Derives 8 ts t := by
  generalize hw : ts ++ us = ws at h
  generalize hi : Item.members t us = i at h
  induction h with
  | tighter _ ih => exact ih hw hi
  | expr => cases hi
  | @apply _ op _ i => cases op <;> cases i <;> cases hi
  | borrowMut | double => cases hi
  | @cast _ _ _ i => cases i <;> cases hi
  | @binary _ _ _ _ l r => cases l <;> cases r <;> cases hi
  | members _ hd =>
    cases hi
    rwa [List.append_cancel_right hw]
  | closure => cases hi

/-- Accesses to members are of all that is in front of them exactly if that is an operand. -/
theorem Phrase.members_iff {ts us : List Token} {t : Tree} (hchain : Chain.run us = some .closed) :
    (∀ i, Phrase 0 (ts ++ us) i ↔ i = .members t us) ↔ Derives 8 ts t := by
  constructor
  · exact fun h => ((h _).2 rfl).of_members
  · intro hd i
    have hus : us ≠ [] := by
      rintro rfl
      cases hchain
    constructor
    · exact fun h => (h.eq_members hd hus hchain).2
    · rintro rfl
      exact (Phrase.members hchain hd).looser (by decide)

/-! ## Casts and references -/

/-- The tokens of an expression have one tree, also among items. -/
theorem Derives.phrase_iff {m n : Nat} {ts : List Token} {t : Tree} (h : Derives n ts t) (hm : m ≤ n)
    {i : Item} : Phrase m ts i ↔ i = .expr t := by
  constructor
  · intro hi
    obtain ⟨u, rfl, hu⟩ := hi.eq_expr h.plainOperand.plain
    rw [hu.unique (h.looser hm)]
  · rintro rfl
    exact .expr (h.looser hm)

/-- A cast without parentheses is of the level of casts, and so is its operand. -/
theorem Derives.of_cast {n : Nat} {w : String} {p : Prim} {ts : List Token} {t : Tree}
    (h : Derives n (ts ++ [.word "as", .word w]) (.cast t p)) : n ≤ 6 ∧ Derives 6 ts t := by
  generalize htokens : ts ++ [Token.word "as", .word w] = ws at h
  generalize htree : Tree.cast t p = u at h
  induction h with
  | tighter _ ih =>
    obtain ⟨hn, hd⟩ := ih htokens htree
    exact ⟨by omega, hd⟩
  | cast _ hd =>
    cases htree
    rw [(List.append_inj' htokens rfl).1]
    exact ⟨Nat.le_refl 6, hd⟩
  | paren =>
    have hlast := congrArg List.getLast? htokens
    rw [List.getLast?_concat] at hlast
    simp at hlast
  | _ => cases htree

/-- A cast is of all that is in front of it exactly if that is an operand of casts. -/
theorem Phrase.cast_iff {w : String} {p : Prim} (hw : numericType? w = some p) {ts : List Token}
    {t : Tree} :
    (∀ i, Phrase 0 (ts ++ [.word "as", .word w]) i ↔ i = .expr (.cast t p)) ↔ Derives 6 ts t :=
  ⟨fun h => ((h _).2 rfl).derives.of_cast.2, fun hd _ => (hd.cast hw).phrase_iff (by decide)⟩

/-- Behind an operator in front stands its operand. -/
theorem Phrase.of_prefixed {n : Nat} {s : String} {op : PrefixOp} (hop : prefixOp? s = some op)
    {ts : List Token} {i : Item} (h : Phrase n (.mark s :: ts) (.prefixed op i)) : Phrase 7 ts i := by
  generalize hw : Token.mark s :: ts = ws at h
  generalize hi : Item.prefixed op i = j at h
  induction h with
  | tighter _ ih => exact ih hw hi
  | expr => cases hi
  | @apply _ op' _ j _ hj =>
    cases hw
    have happly : j.apply op' = .prefixed op' j ∨ ∃ t, j.apply op' = .expr t := by
      cases op' <;> cases j <;> simp [Item.apply]
    rcases happly with heq | ⟨t, heq⟩
    · rw [heq] at hi
      cases hi
      exact hj
    · rw [heq] at hi
      cases hi
  | borrowMut =>
    cases hw
    cases hi
    cases hop
  | double =>
    cases hw
    cases hop
  | @cast _ _ _ j => cases j <;> cases hi
  | @binary _ _ _ _ l r => cases l <;> cases r <;> cases hi
  | members => cases hi
  | closure => cases hi

/-- A reference is to all that follows exactly if that is an operand of unary operators. -/
theorem Phrase.borrow_iff {ts : List Token} {t : Tree} :
    (∀ i, Phrase 0 (.mark "&" :: ts) i ↔ i = .prefixed .borrow (.expr t)) ↔ Derives 7 ts t :=
  ⟨fun h => (((h _).2 rfl).of_prefixed rfl).derives,
    fun hd _ => (hd.soleOperand.apply (s := "&") (.inl rfl) rfl).phrase_iff (by decide)⟩

/-- So is a reference to what another one refers to. -/
theorem Phrase.view_iff {ts : List Token} {t : Tree} :
    (∀ i, Phrase 0 (.mark "&" :: .mark "*" :: ts) i ↔
      i = .prefixed .borrow (.prefixed .deref (.expr t))) ↔ Derives 7 ts t :=
  ⟨fun h => ((((h _).2 rfl).of_prefixed rfl).of_prefixed rfl).derives, fun hd _ =>
    ((hd.soleOperand.apply (s := "*") (.inr rfl) rfl).apply (s := "&") (.inl rfl) rfl).phrase_iff
      (by decide)⟩

end Oxidize.Source
