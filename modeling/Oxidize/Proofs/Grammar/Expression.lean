import Oxidize.Proofs.Grammar.Token

/-!
# The expression grammar of the emitted source

`Derives n ts t` is the grammar of operators, casts and conditionals: some tokens are an expression
of level `n` with the tree `t`. The levels are, from the loosest to the tightest,

* 1 to 5 the binary operators: `||`, `&&`, the comparisons, `+ -` and `* / %`;
* 6 casts;
* 7 unary operators;
* 8 operands: names, numbers, truth values, anything in parentheses, and conditionals.

An expression of a level is also one of every looser level. Binary operators group to the left;
comparisons do not group at all.

The grammar is unambiguous (`Derives.unique`). This is shown by a parser: `parseAt` reads an
expression of a level off the front of some tokens, and it reads every expression of that level as
the tree that derives it (`Derives.reads`).
-/

namespace Oxidize.Source

/-- A tree of operators. -/
inductive Tree where
  | name (text : String)
  | number (value : Binary64)
  | bool (value : Bool)
  | unary (op : UnaryOp) (operand : Tree)
  | binary (op : BinOp) (left right : Tree)
  | cast (operand : Tree) (target : Prim)
  | ifElse (cond thenTree elseTree : Tree)
deriving DecidableEq

/-! ## Words, numerals and operators -/

/-- The binary operator that a mark is. -/
def binOp? : String → Option BinOp
  | "||" => some .or
  | "&&" => some .and
  | "==" => some .eq
  | "!=" => some .ne
  | "<" => some .lt
  | ">" => some .gt
  | "<=" => some .le
  | ">=" => some .ge
  | "+" => some .add
  | "-" => some .sub
  | "*" => some .mul
  | "/" => some .div
  | "%" => some .rem
  | _ => none

/-- The unary operator that a mark is. -/
def unaryOp? : String → Option UnaryOp
  | "-" => some .neg
  | "!" => some .not
  | _ => none

/-- The truth value that a word is. -/
def truth? : String → Option Bool
  | "true" => some true
  | "false" => some false
  | _ => none

/-- Only two words are truth values. -/
theorem truth?_eq_some {w : String} {b : Bool} (h : truth? w = some b) :
    w = "true" ∨ w = "false" := by
  rw [truth?.eq_def] at h
  split at h
  · exact .inl rfl
  · exact .inr rfl
  · cases h

/-- The type of numbers that a word names. -/
def numericType? : String → Option Prim
  | "i8" => some .i8
  | "i16" => some .i16
  | "i32" => some .i32
  | "i64" => some .i64
  | "u8" => some .u8
  | "u16" => some .u16
  | "u32" => some .u32
  | "u64" => some .u64
  | "usize" => some .usize
  | "f32" => some .f32
  | "f64" => some .f64
  | _ => none

/-- A word that names a value: neither a keyword nor the wildcard. Of the keywords only `self` stands
for a value. -/
def isName (word : String) : Bool :=
  word == "self" ||
    !(word == "_" || Name.keywords.contains word || Name.reserved.contains word)

/-- The number that a numeral stands for, which is the one nearest to its decimal value. -/
def numeral? (text : String) : Option Binary64 :=
  let whole := text.toList.takeWhile Char.isDigit
  match text.toList.dropWhile Char.isDigit with
  | [] => Binary64.ofDecimal? false (Nat.ofDigitChars 10 whole 0) 0
  | '.' :: fraction =>
    if fraction.all Char.isDigit then
      Binary64.ofDecimal? false (Nat.ofDigitChars 10 (whole ++ fraction) 0) (-fraction.length)
    else none
  | _ => none

/-- The level of the expressions that a binary operator makes. -/
def level : BinOp → Nat
  | .or => 1
  | .and => 2
  | .eq | .ne | .lt | .gt | .le | .ge => 3
  | .add | .sub => 4
  | .mul | .div | .rem => 5

/-- The level of the left operand of a binary operator. -/
def leftLevel (op : BinOp) : Nat :=
  if level op = 3 then 4 else level op

/-! ## The grammar -/

/-- Tokens that are an expression of a level. -/
inductive Derives : Nat → List Token → Tree → Prop
  | tighter {n : Nat} {ts : List Token} {t : Tree} : Derives (n + 1) ts t → Derives n ts t
  | binary {s : String} {op : BinOp} {ts us : List Token} {l r : Tree} :
    binOp? s = some op → Derives (leftLevel op) ts l → Derives (level op + 1) us r →
      Derives (level op) (ts ++ .mark s :: us) (.binary op l r)
  | cast {w : String} {p : Prim} {ts : List Token} {t : Tree} :
    numericType? w = some p → Derives 6 ts t → Derives 6 (ts ++ [.word "as", .word w]) (.cast t p)
  | unary {s : String} {op : UnaryOp} {ts : List Token} {t : Tree} :
    unaryOp? s = some op → Derives 7 ts t → Derives 7 (.mark s :: ts) (.unary op t)
  | name {w : String} : isName w = true → Derives 8 [.word w] (.name w)
  | number {s : String} {x : Binary64} : numeral? s = some x → Derives 8 [.number s] (.number x)
  | bool {w : String} {b : Bool} : truth? w = some b → Derives 8 [.word w] (.bool b)
  | paren {ts : List Token} {t : Tree} :
    Derives 1 ts t → Derives 8 (.mark "(" :: ts ++ [.mark ")"]) t
  | ifElse {ts us vs : List Token} {c t e : Tree} :
    Derives 1 ts c → Derives 1 us t → Derives 1 vs e →
      Derives 8 (.word "if" :: ts ++ .mark "\x7b" :: us ++ .mark "\x7d" :: .word "else" ::
        .mark "\x7b" :: vs ++ [.mark "\x7d"]) (.ifElse c t e)

/-- An expression of a level is one of every looser level. -/
theorem Derives.looser {m n : Nat} {ts : List Token} {t : Tree} (h : Derives n ts t) (hmn : m ≤ n) :
    Derives m ts t := by
  induction hmn with
  | refl => exact h
  | step _ ih => exact ih h.tighter

/-- An expression has tokens. -/
theorem Derives.length_pos {n : Nat} {ts : List Token} {t : Tree} (h : Derives n ts t) :
    0 < ts.length := by
  induction h with
  | tighter _ ih => exact ih
  | binary _ _ _ ih _ =>
    rw [List.length_append]
    omega
  | _ => simp

/-- There is no level above that of operands. -/
theorem Derives.le_eight {n : Nat} {ts : List Token} {t : Tree} (h : Derives n ts t) : n ≤ 8 := by
  induction h with
  | tighter _ ih => omega
  | @binary _ op => cases op <;> decide
  | _ => decide

/-! ## The parser -/

/-- A unary operator in front. -/
def unary? : List Token → Option (UnaryOp × List Token)
  | .mark s :: ts => (unaryOp? s).map (·, ts)
  | _ => none

/-- A binary operator of the level in front. -/
def operator? (n : Nat) : List Token → Option (BinOp × List Token)
  | .mark s :: ts => ((binOp? s).filter (level · == n)).map (·, ts)
  | _ => none

/-- The target of a cast in front. -/
def castTo? : List Token → Option (Prim × List Token)
  | .word "as" :: .word w :: ts => (numericType? w).map (·, ts)
  | _ => none

/-- The rest after a given token. -/
def expect? (token : Token) : List Token → Option (List Token)
  | [] => none
  | t :: ts => if t = token then some ts else none

mutual

/-- The expression of a level in front and what is left, with fuel for the depth of calls. -/
def parseAt : Nat → Nat → List Token → Option (Tree × List Token)
  | 0, _, _ => none
  | fuel + 1, n, ts =>
    if n < 7 then (parseAt fuel (n + 1) ts).bind fun (t, rest) => continueAt fuel n t rest
    else if n = 7 then
      match unary? ts with
      | some (op, rest) => (parseAt fuel 7 rest).map fun (t, rest) => (.unary op t, rest)
      | none => parseAt fuel 8 ts
    else parseOperand fuel ts

/-- The expression that goes on from a first one of the level with what is left. -/
def continueAt : Nat → Nat → Tree → List Token → Option (Tree × List Token)
  | 0, _, _, _ => none
  | fuel + 1, n, t, ts =>
    if n = 6 then
      match castTo? ts with
      | some (p, rest) => continueAt fuel 6 (.cast t p) rest
      | none => some (t, ts)
    else
      match operator? n ts with
      | some (op, rest) =>
        (parseAt fuel (n + 1) rest).bind fun (u, rest) =>
          if n = 3 then some (.binary op t u, rest) else continueAt fuel n (.binary op t u) rest
      | none => some (t, ts)

/-- The operand in front. -/
def parseOperand : Nat → List Token → Option (Tree × List Token)
  | fuel + 1, .word w :: ts =>
    if w = "if" then do
      let (c, ts) ← parseAt fuel 1 ts
      let ts ← expect? (.mark "\x7b") ts
      let (t, ts) ← parseAt fuel 1 ts
      let ts ← expect? (.mark "\x7d") ts
      let ts ← expect? (.word "else") ts
      let ts ← expect? (.mark "\x7b") ts
      let (e, ts) ← parseAt fuel 1 ts
      let ts ← expect? (.mark "\x7d") ts
      return (.ifElse c t e, ts)
    else if isName w then some (.name w, ts)
    else (truth? w).map (.bool ·, ts)
  | _ + 1, .number s :: ts => (numeral? s).map (.number ·, ts)
  | fuel + 1, .mark s :: ts =>
    if s = "(" then do
      let (t, ts) ← parseAt fuel 1 ts
      let ts ← expect? (.mark ")") ts
      return (t, ts)
    else none
  | _, _ => none

end

/-! ## What an expression is followed by -/

/-- No operator or cast of the level or of a tighter one comes next. -/
structure Stops (n : Nat) (rest : List Token) : Prop where
  operator : ∀ m, n ≤ m → operator? m rest = none
  cast : n ≤ 6 → castTo? rest = none

/-- What stops a level stops every tighter one. -/
theorem Stops.tighter {m n : Nat} {rest : List Token} (h : Stops m rest) (hmn : m ≤ n) :
    Stops n rest where
  operator k hk := h.operator k (Nat.le_trans hmn hk)
  cast hn := h.cast (Nat.le_trans hmn hn)

/-- The end of the tokens stops every level. -/
theorem stops_nil (n : Nat) : Stops n [] :=
  ⟨fun _ _ => rfl, fun _ => rfl⟩

/-- A mark that is no binary operator. -/
theorem stops_mark {s : String} (hs : binOp? s = none) (n : Nat) (rest : List Token) :
    Stops n (.mark s :: rest) :=
  ⟨fun _ _ => by simp [operator?, hs], fun _ => rfl⟩

/-- The mark of an operator is an operator of its level. -/
theorem operator?_mark {s : String} {op : BinOp} (hs : binOp? s = some op) (rest : List Token) :
    operator? (level op) (.mark s :: rest) = some (op, rest) := by
  simp [operator?, hs]

/-- The mark of an operator stops the tighter levels. -/
theorem stops_operator {s : String} {op : BinOp} (hs : binOp? s = some op) (rest : List Token) :
    Stops (level op + 1) (.mark s :: rest) where
  operator m hm := by
    have hne : level op ≠ m := by omega
    simp [operator?, hs, hne]
  cast _ := rfl

/-- Binary operators have one of the first five levels. -/
theorem level_le (op : BinOp) : level op ≤ 5 := by
  cases op <;> decide

/-- Nothing continues an expression that binds tighter than casts. -/
theorem stops_unary (rest : List Token) : Stops 7 rest where
  operator m hm := by
    cases rest with
    | nil => rfl
    | cons token rest =>
      cases token with
      | word | number => rfl
      | mark s =>
        cases hs : binOp? s with
        | none => exact (stops_mark hs 7 rest).operator m hm
        | some op =>
          have := level_le op
          exact (stops_operator hs rest).operator m (by omega)
  cast h := by omega

/-- Nothing is added to an expression where its level stops. -/
theorem continueAt_of_stops {n : Nat} {rest : List Token} (h : Stops n rest) {fuel : Nat}
    (hfuel : 0 < fuel) (t : Tree) : continueAt fuel n t rest = some (t, rest) := by
  obtain ⟨fuel, rfl⟩ : ∃ k, fuel = k + 1 := ⟨fuel - 1, by omega⟩
  rw [continueAt]
  split
  next hn => rw [h.cast (by omega)]
  next => rw [h.operator n (Nat.le_refl n)]

/-! ## The parser reads what the grammar derives -/

/-- Fuel that is enough to read some tokens as an expression of a level. -/
def enough (n : Nat) (ts : List Token) : Nat :=
  10 * ts.length + 10 - n

/-- The tokens are read as the tree wherever nothing continues them at the level. -/
def Reads (n : Nat) (ts : List Token) (t : Tree) : Prop :=
  ∀ rest fuel, Stops n rest → enough n ts ≤ fuel → parseAt fuel n (ts ++ rest) = some (t, rest)

/-- The tokens are read as the tree even where the level goes on: reading then continues from the
tree. The fuel spent on them is at most one unit for each. -/
def ReadsAhead (n : Nat) (ts : List Token) (t : Tree) : Prop :=
  ∀ rest fuel, Stops (n + 1) rest → enough n ts ≤ fuel →
    ∃ left, fuel ≤ left + ts.length ∧ parseAt fuel n (ts ++ rest) = continueAt left n t rest

/-- What can be read where the level goes on can be read where it stops. -/
theorem ReadsAhead.reads {n : Nat} {ts : List Token} {t : Tree} (h : ReadsAhead n ts t)
    (hn : n ≤ 8) : Reads n ts t := by
  intro rest fuel hrest hfuel
  obtain ⟨left, hleft, heq⟩ := h rest fuel (hrest.tighter (Nat.le_succ n)) hfuel
  rw [heq]
  refine continueAt_of_stops hrest ?_ t
  rw [enough] at hfuel
  omega

/-- What is read on the next level can be read ahead on this one. -/
theorem Reads.readsAhead {n : Nat} {ts : List Token} {t : Tree} (h : Reads (n + 1) ts t)
    (hn : n < 7) (hts : 0 < ts.length) : ReadsAhead n ts t := by
  intro rest fuel hrest hfuel
  rw [enough] at hfuel
  obtain ⟨fuel, rfl⟩ : ∃ k, fuel = k + 1 := ⟨fuel - 1, by omega⟩
  refine ⟨fuel, by omega, ?_⟩
  rw [parseAt, if_pos hn, h rest fuel hrest (by rw [enough]; omega), Option.bind_some]

/-- A binary operator that groups to the left. -/
theorem ReadsAhead.binary {s : String} {op : BinOp} {ts us : List Token} {l r : Tree}
    (hs : binOp? s = some op) (hop : level op ≠ 3) (hl : ReadsAhead (level op) ts l)
    (hr : Reads (level op + 1) us r) :
    ReadsAhead (level op) (ts ++ .mark s :: us) (.binary op l r) := by
  intro rest fuel hrest hfuel
  have hlevel := level_le op
  -- The left operand is read ahead of the operator, and reading goes on from there.
  simp only [enough, List.length_append, List.length_cons] at hfuel ⊢
  obtain ⟨left, hleft, heq⟩ := hl (.mark s :: us ++ rest) fuel (stops_operator hs _)
    (by rw [enough]; omega)
  obtain ⟨left, rfl⟩ : ∃ k, left = k + 1 := ⟨left - 1, by omega⟩
  refine ⟨left, by omega, ?_⟩
  rw [List.append_assoc, heq, continueAt, if_neg (by omega), List.cons_append, operator?_mark hs]
  simp only [hr rest left hrest (by rw [enough]; omega), Option.bind_some, if_neg hop]

/-- A comparison is read from its operands, neither of which is a comparison. -/
theorem Reads.comparison {s : String} {op : BinOp} {ts us : List Token} {l r : Tree}
    (hs : binOp? s = some op) (hop : level op = 3) (hl : Reads 4 ts l) (hr : Reads 4 us r) :
    Reads 3 (ts ++ .mark s :: us) (.binary op l r) := by
  intro rest fuel hrest hfuel
  simp only [enough, List.length_append, List.length_cons] at hfuel
  obtain ⟨fuel, rfl⟩ : ∃ k, fuel = k + 2 := ⟨fuel - 2, by omega⟩
  have hstop : Stops 4 (.mark s :: us ++ rest) :=
    (stops_operator hs (us ++ rest)).tighter (by omega)
  have hoperator : operator? 3 (.mark s :: us ++ rest) = some (op, us ++ rest) :=
    hop ▸ operator?_mark hs (us ++ rest)
  rw [parseAt, if_pos (by omega), List.append_assoc, hl _ _ hstop (by rw [enough]; omega)]
  simp only [Option.bind_some, continueAt, hoperator, if_true,
    hr rest fuel (hrest.tighter (by omega)) (by rw [enough]; omega)]
  rfl

/-- A cast is read behind its operand, which may be a cast. -/
theorem ReadsAhead.cast {w : String} {p : Prim} {ts : List Token} {t : Tree}
    (hw : numericType? w = some p) (h : ReadsAhead 6 ts t) :
    ReadsAhead 6 (ts ++ [.word "as", .word w]) (.cast t p) := by
  intro rest fuel hrest hfuel
  simp only [enough, List.length_append, List.length_cons, List.length_nil] at hfuel ⊢
  obtain ⟨left, hleft, heq⟩ := h (.word "as" :: .word w :: rest) fuel (stops_unary _)
    (by rw [enough]; omega)
  obtain ⟨left, rfl⟩ : ∃ k, left = k + 1 := ⟨left - 1, by omega⟩
  refine ⟨left, by omega, ?_⟩
  rw [List.append_assoc, List.cons_append, List.cons_append, List.nil_append, heq, continueAt,
    if_pos rfl]
  simp only [castTo?, hw, Option.map_some]

/-- A unary operator is read in front of its operand. -/
theorem Reads.unary {s : String} {op : UnaryOp} {ts : List Token} {t : Tree}
    (hs : unaryOp? s = some op) (h : Reads 7 ts t) : Reads 7 (.mark s :: ts) (.unary op t) := by
  intro rest fuel hrest hfuel
  simp only [enough, List.length_cons] at hfuel
  obtain ⟨fuel, rfl⟩ : ∃ k, fuel = k + 1 := ⟨fuel - 1, by omega⟩
  rw [List.cons_append, parseAt, if_neg (by omega), if_pos rfl]
  simp only [unary?, hs, Option.map_some, h rest fuel hrest (by rw [enough]; omega)]

/-- An operand, which no unary operator starts. -/
theorem Reads.operand {ts : List Token} {t : Tree} (h : Reads 8 ts t)
    (hts : ∀ rest, unary? (ts ++ rest) = none) : Reads 7 ts t := by
  intro rest fuel hrest hfuel
  rw [enough] at hfuel
  obtain ⟨fuel, rfl⟩ : ∃ k, fuel = k + 1 := ⟨fuel - 1, by omega⟩
  rw [parseAt, if_neg (by omega), if_pos rfl, hts]
  exact h rest fuel (hrest.tighter (by omega)) (by rw [enough]; omega)

/-- An operand from what its first token decides. -/
theorem reads_operand {ts : List Token} {t : Tree}
    (h : ∀ rest fuel, 10 * ts.length ≤ fuel →
      parseOperand (fuel + 1) (ts ++ rest) = some (t, rest)) : Reads 8 ts t := by
  intro rest fuel hrest hfuel
  rw [enough] at hfuel
  obtain ⟨fuel, rfl⟩ : ∃ k, fuel = k + 2 := ⟨fuel - 2, by omega⟩
  rw [parseAt, if_neg (by omega), if_neg (by omega)]
  exact h rest fuel (by omega)

/-- The token that is expected is dropped. -/
theorem expect?_cons (token : Token) (ts : List Token) : expect? token (token :: ts) = some ts :=
  if_pos rfl

/-- Parentheses are read around an expression. -/
theorem Reads.paren {ts : List Token} {t : Tree} (h : Reads 1 ts t) :
    Reads 8 (.mark "(" :: ts ++ [.mark ")"]) t := by
  refine reads_operand fun rest fuel hfuel => ?_
  simp only [List.length_append, List.length_cons, List.length_nil] at hfuel
  have hts := h (.mark ")" :: rest) fuel (stops_mark (by decide) 1 rest) (by rw [enough]; omega)
  simp only [List.cons_append, List.append_assoc, List.nil_append, parseOperand, if_true, hts,
    expect?_cons, bind, pure, Option.bind_some]

/-- A conditional expression is read from its three parts. -/
theorem Reads.ifElse {ts us vs : List Token} {c t e : Tree} (hc : Reads 1 ts c) (ht : Reads 1 us t)
    (he : Reads 1 vs e) :
    Reads 8 (.word "if" :: ts ++ .mark "\x7b" :: us ++ .mark "\x7d" :: .word "else" ::
      .mark "\x7b" :: vs ++ [.mark "\x7d"]) (.ifElse c t e) := by
  refine reads_operand fun rest fuel hfuel => ?_
  simp only [List.length_append, List.length_cons, List.length_nil] at hfuel
  have hcond := hc (.mark "\x7b" :: us ++ .mark "\x7d" :: .word "else" :: .mark "\x7b" :: vs ++
    .mark "\x7d" :: rest) fuel (stops_mark (by decide) 1 _) (by rw [enough]; omega)
  have hthen := ht (.mark "\x7d" :: .word "else" :: .mark "\x7b" :: vs ++ .mark "\x7d" :: rest)
    fuel (stops_mark (by decide) 1 _) (by rw [enough]; omega)
  have helse := he (.mark "\x7d" :: rest) fuel (stops_mark (by decide) 1 rest)
    (by rw [enough]; omega)
  simp only [List.cons_append, List.append_assoc] at hcond hthen
  simp only [List.cons_append, List.append_assoc, List.nil_append, parseOperand, if_true, hcond,
    hthen, helse, expect?_cons, bind, pure, Option.bind_some]

/-- No unary operator starts an operand. -/
theorem Derives.unary?_eq_none {n : Nat} {ts : List Token} {t : Tree} (h : Derives n ts t)
    (hn : n = 8) (rest : List Token) : unary? (ts ++ rest) = none := by
  cases h with
  | tighter h =>
    have := h.le_eight
    omega
  | @binary _ op =>
    have := level_le op
    omega
  | cast | unary => contradiction
  | name | number | bool | paren | ifElse => rfl

/-- Every expression of a level is read as its tree. -/
theorem Derives.reads {n : Nat} {ts : List Token} {t : Tree} (h : Derives n ts t) :
    Reads n ts t ∧ (n < 7 → n ≠ 3 → ReadsAhead n ts t) := by
  -- At the levels that group to the left, reading what follows goes on from what was read, so there
  -- the stronger statement carries the induction.
  have split : ∀ {n : Nat} {ts : List Token} {t : Tree}, n < 7 → ReadsAhead n ts t →
      Reads n ts t ∧ (n < 7 → n ≠ 3 → ReadsAhead n ts t) :=
    fun hn h => ⟨h.reads (by omega), fun _ _ => h⟩
  induction h with
  | @tighter n ts t h ih =>
    by_cases hn : n < 7
    · exact split hn (ih.1.readsAhead hn h.length_pos)
    · have := h.le_eight
      obtain rfl : n = 7 := by omega
      exact ⟨ih.1.operand (h.unary?_eq_none rfl), fun h => absurd h hn⟩
  | @binary s op ts us l r hs hl hr ihl ihr =>
    have := level_le op
    by_cases hop : level op = 3
    · rw [leftLevel, if_pos hop] at ihl
      rw [hop] at ihr ⊢
      exact ⟨.comparison hs hop ihl.1 ihr.1, fun _ h => absurd rfl h⟩
    · rw [leftLevel, if_neg hop] at ihl
      exact split (by omega) (.binary hs hop (ihl.2 (by omega) hop) ihr.1)
  | cast hw _ ih => exact split (by decide) (.cast hw (ih.2 (by decide) (by decide)))
  | unary hs _ ih => exact ⟨.unary hs ih.1, fun h => absurd h (by decide)⟩
  | @name w hw =>
    have hif : w ≠ "if" := by rintro rfl; exact absurd hw (by decide)
    refine ⟨reads_operand fun rest fuel _ => ?_, fun h => absurd h (by decide)⟩
    simp only [List.cons_append, List.nil_append, parseOperand, if_neg hif, hw, if_true]
  | number hs =>
    refine ⟨reads_operand fun rest fuel _ => ?_, fun h => absurd h (by decide)⟩
    simp only [List.cons_append, List.nil_append, parseOperand, hs, Option.map_some]
  | @bool w b hw =>
    refine ⟨reads_operand fun rest fuel _ => ?_, fun h => absurd h (by decide)⟩
    rcases truth?_eq_some hw with rfl | rfl <;> cases hw <;> rfl
  | paren _ ih => exact ⟨ih.1.paren, fun h => absurd h (by decide)⟩
  | ifElse _ _ _ ihc iht ihe => exact ⟨.ifElse ihc.1 iht.1 ihe.1, fun h => absurd h (by decide)⟩

/-- The grammar is unambiguous. -/
theorem Derives.unique {n : Nat} {ts : List Token} {t t' : Tree} (h : Derives n ts t)
    (h' : Derives n ts t') : t = t' := by
  have heq := h.reads.1 [] _ (stops_nil n) (Nat.le_refl _)
  rw [h'.reads.1 [] _ (stops_nil n) (Nat.le_refl _)] at heq
  simpa using heq.symm

end Oxidize.Source
