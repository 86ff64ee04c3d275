import Oxidize.Proofs.Grammar.Expression

/-!
# Items of the emitted source

An item is what stands between brackets and commas: an expression of operators, perhaps with
references made or followed in it, as the body of a closure, or with accesses to members behind an
operand. `Phrase n ts i` is the grammar of items, on the levels of the expression grammar. It adds no
rule for parentheses, so what is an expression already has one tree (`Item.expr`).

The expressions among the items are those of the expression grammar (`Phrase.eq_expr`). What is
written with a binary operator outside of parentheses is of no tighter level than the operator
(`Derives.le_level`).
-/

namespace Oxidize.Source

/-! ## The grammar -/

/-- An operator in front of its operand. -/
inductive PrefixOp where
  | unary (op : UnaryOp)
  | borrow
  | borrowMut
  | deref
deriving DecidableEq

/-- The operator in front that a mark is. -/
def prefixOp? : String → Option PrefixOp
  | "-" => some (.unary .neg)
  | "!" => some (.unary .not)
  | "&" => some .borrow
  | "*" => some .deref
  | _ => none

/-- The tree of an item. -/
inductive Item where
  | expr (t : Tree)
  | prefixed (op : PrefixOp) (operand : Item)
  | cast (operand : Item) (target : Prim)
  | binary (op : BinOp) (left right : Item)
  | members (operand : Tree) (chain : List Token)
  | closure (param : String) (body : Item)

namespace Item

/-- An operator in front of an item. On an expression, an operator of expressions makes one. -/
def apply : PrefixOp → Item → Item
  | .unary op, .expr t => .expr (.unary op t)
  | op, i => .prefixed op i

/-- A cast of an item. -/
def castTo : Item → Prim → Item
  | .expr t, p => .expr (.cast t p)
  | i, p => .cast i p

/-- A binary operator between items. -/
def join (op : BinOp) : Item → Item → Item
  | .expr l, .expr r => .expr (.binary op l r)
  | l, r => .binary op l r

end Item

/-- What has been seen of accesses to members. -/
inductive Chain where
  | start
  | point
  | name
  | types
  | args
  | closed
deriving DecidableEq

/-- One more token of accesses to members. Each access is a point, a name and an empty list of
arguments, perhaps with types in front of it. -/
def Chain.step : Chain → Token → Option Chain
  | .start, .mark "." | .closed, .mark "." => some .point
  | .point, .word _ => some .name
  | .name, .mark "::" => some .types
  | .name, .mark "(" | .types, .mark "(" => some .args
  | .types, .word _ | .types, .mark "<" | .types, .mark ">" | .types, .mark ">>" => some .types
  | .args, .mark ")" => some .closed
  | _, _ => none

/-- What tokens come to as accesses to members. -/
def Chain.run (ts : List Token) : Option Chain :=
  ts.foldlM Chain.step .start

/-- Tokens that are an item of a level. The mark `&&` in front of an operand makes two references. -/
inductive Phrase : Nat → List Token → Item → Prop
  | tighter {n : Nat} {ts : List Token} {i : Item} : Phrase (n + 1) ts i → Phrase n ts i
  | expr {n : Nat} {ts : List Token} {t : Tree} : Derives n ts t → Phrase n ts (.expr t)
  | apply {s : String} {op : PrefixOp} {ts : List Token} {i : Item} :
    prefixOp? s = some op → Phrase 7 ts i → Phrase 7 (.mark s :: ts) (i.apply op)
  | borrowMut {ts : List Token} {i : Item} :
    Phrase 7 ts i → Phrase 7 (.mark "&" :: .word "mut" :: ts) (.prefixed .borrowMut i)
  | double {ts : List Token} {i : Item} :
    Phrase 7 (.mark "&" :: ts) i → Phrase 7 (.mark "&&" :: ts) (.prefixed .borrow i)
  | cast {w : String} {p : Prim} {ts : List Token} {i : Item} :
    numericType? w = some p → Phrase 6 ts i →
      Phrase 6 (ts ++ [.word "as", .word w]) (i.castTo p)
  | binary {s : String} {op : BinOp} {ts us : List Token} {l r : Item} :
    binOp? s = some op → Phrase (leftLevel op) ts l → Phrase (level op + 1) us r →
      Phrase (level op) (ts ++ .mark s :: us) (l.join op r)
  | members {ts us : List Token} {t : Tree} :
    Chain.run us = some .closed → Derives 8 ts t → Phrase 8 (ts ++ us) (.members t us)
  | closure {x : String} {ts : List Token} {i : Item} :
    isName x = true → Phrase 0 ts i →
      Phrase 0 (.mark "|" :: .word x :: .mark "|" :: ts) (.closure x i)

/-- A phrase of a level is one of every looser level. -/
theorem Phrase.looser {m n : Nat} {ts : List Token} {i : Item} (h : Phrase n ts i) (hmn : m ≤ n) :
    Phrase m ts i := by
  induction hmn with
  | refl => exact h
  | step _ ih => exact ih h.tighter

/-- A phrase has tokens. -/
theorem Phrase.ne_nil {n : Nat} {ts : List Token} {i : Item} (h : Phrase n ts i) : ts ≠ [] := by
  induction h with
  | tighter _ ih => exact ih
  | expr h =>
    rintro rfl
    exact absurd h.length_pos (by decide)
  | members _ h =>
    intro hnil
    rw [List.append_eq_nil_iff] at hnil
    rw [hnil.1] at h
    exact absurd h.length_pos (by decide)
  | _ => simp

/-! ## Parentheses -/

/-- How many parentheses are open after the tokens. -/
def depth (ts : List Token) : Int :=
  ts.count (.mark "(") - ts.count (.mark ")")

/-- Parentheses are counted token by token. -/
theorem depth_append (ts us : List Token) : depth (ts ++ us) = depth ts + depth us := by
  simp only [depth, List.count_append]
  omega

/-- Every parenthesis is closed, and none before it is opened. -/
structure Balanced (ts : List Token) : Prop where
  total : depth ts = 0
  partial_nonneg : ∀ k, 0 ≤ depth (ts.take k)

/-- A token that is no parenthesis is balanced. -/
theorem balanced_singleton {x : Token} (hopen : x ≠ .mark "(") (hclose : x ≠ .mark ")") :
    Balanced [x] := by
  have hzero : depth [x] = 0 := by simp [depth, hopen, hclose]
  refine ⟨hzero, fun k => ?_⟩
  cases k with
  | zero => simp [depth]
  | succ k => simp [hzero]

namespace Balanced

variable {ts us : List Token}

/-- Balanced tokens in a row are balanced. -/
theorem append (h : Balanced ts) (h' : Balanced us) : Balanced (ts ++ us) where
  total := by rw [depth_append, h.total, h'.total]; rfl
  partial_nonneg k := by
    rw [List.take_append, depth_append]
    have := h.partial_nonneg k
    have := h'.partial_nonneg (k - ts.length)
    omega

/-- A token in front that is no parenthesis keeps the balance. -/
theorem cons {x : Token} (h : Balanced ts) (hopen : x ≠ .mark "(") (hclose : x ≠ .mark ")") :
    Balanced (x :: ts) :=
  (balanced_singleton hopen hclose).append h

/-- Parentheses around balanced tokens are balanced. -/
theorem paren (h : Balanced ts) : Balanced (.mark "(" :: ts ++ [.mark ")"]) where
  total := by
    rw [List.cons_append, ← List.singleton_append, depth_append, depth_append, h.total]
    decide
  partial_nonneg k := by
    cases k with
    | zero => simp [depth]
    | succ k =>
      have hone : depth [.mark "("] = 1 := by decide
      have hlast : -1 ≤ depth ([Token.mark ")"].take (k - ts.length)) := by
        cases k - ts.length with
        | zero => decide
        | succ n => simp [depth]
      have := h.partial_nonneg k
      rw [List.cons_append, List.take_succ_cons, List.take_append, ← List.singleton_append,
        depth_append, depth_append]
      omega

end Balanced

/-- No binary operator is a parenthesis. -/
theorem binOp?_ne_paren {s : String} {op : BinOp} (h : binOp? s = some op) :
    Token.mark s ≠ .mark "(" ∧ Token.mark s ≠ .mark ")" := by
  constructor <;> rintro ⟨⟩ <;> cases h

/-- The tokens of an expression are balanced. -/
theorem Derives.balanced {n : Nat} {ts : List Token} {t : Tree} (h : Derives n ts t) :
    Balanced ts := by
  induction h with
  | tighter _ ih => exact ih
  | binary hs _ _ ihl ihr =>
    obtain ⟨hopen, hclose⟩ := binOp?_ne_paren hs
    exact ihl.append (ihr.cons hopen hclose)
  | cast _ _ ih =>
    exact ih.append ((balanced_singleton (by simp) (by simp)).cons (by simp) (by simp))
  | unary hs _ ih =>
    refine ih.cons ?_ ?_ <;> rintro ⟨⟩ <;> cases hs
  | name | number | bool => exact balanced_singleton (by simp) (by simp)
  | paren _ ih => exact ih.paren
  | ifElse _ _ _ ihc iht ihe =>
    have hclose := balanced_singleton (x := .mark "\x7d") (by decide) (by decide)
    have helse := ((ihe.append hclose).cons (x := .mark "\x7b") (by decide) (by decide)).cons
      (x := .word "else") (by decide) (by decide)
    have hthen := ((iht.append (helse.cons (x := .mark "\x7d") (by decide) (by decide))).cons
      (x := .mark "\x7b") (by decide) (by decide))
    have := (ihc.append hthen).cons (x := .word "if") (by decide) (by decide)
    simpa using this

/-- What is written with a binary operator is no expression of a tighter level than its own: the
parentheses that could make it one do not belong together. -/
theorem Derives.le_level {s : String} {op : BinOp} {ts us : List Token} {l r : Tree}
    (hs : binOp? s = some op) (hl : Derives (leftLevel op) ts l) (hr : Derives (level op + 1) us r)
    {m : Nat} {t : Tree} (h : Derives m (ts ++ .mark s :: us) t) : m ≤ level op := by
  have hbinary := Derives.binary hs hl hr
  refine Nat.le_of_not_lt fun hlt => ?_
  obtain rfl : t = .binary op l r := (h.looser (by omega)).unique hbinary
  generalize hw : ts ++ .mark s :: us = ws at h
  generalize htree : Tree.binary op l r = t at h
  induction h with
  | tighter _ ih => exact ih (by omega) hw htree
  | binary =>
    cases htree
    exact Nat.lt_irrefl _ hlt
  | @paren ws _ hinner =>
    obtain ⟨x, ts, rfl⟩ := List.exists_cons_of_length_pos hl.length_pos
    rw [List.cons_append, List.cons_append, List.cons.injEq] at hw
    obtain ⟨rfl, hw⟩ := hw
    -- the left operand opens a parenthesis that would be closed behind the right one
    have htake : ws.take ts.length = ts := by
      have hlength := congrArg List.length hw
      have := hr.length_pos
      simp only [List.length_append, List.length_cons, List.length_nil] at hlength
      have := congrArg (List.take ts.length) hw
      rwa [List.take_left, List.take_append_of_le_length (by omega), eq_comm] at this
    have hnonneg := hinner.balanced.partial_nonneg ts.length
    have htotal := hl.balanced.total
    have hone : depth [.mark "("] = 1 := by decide
    rw [← List.singleton_append, depth_append] at htotal
    rw [htake] at hnonneg
    omega
  | _ => cases htree

/-! ## Expressions among the items -/

/-- Whether an operand may end with the token. -/
def isEnd : Token → Bool
  | .word _ | .number _ => true
  | .mark s => s == ")" || s == "\x7d"

/-- Marks that are operators of expressions behind an operand, and of references elsewhere. -/
def isTwofold (x : Token) : Bool :=
  x == .mark "*" || x == .mark "&&"

/-- Whether tokens have marks of expressions only. The first argument tells whether an operand ends
before the tokens. -/
def isPlain : Bool → List Token → Bool
  | _, [] => true
  | ended, x :: ts =>
    x != .mark "&" && x != .mark "|" && x != .mark "." && (!isTwofold x || ended) &&
      isPlain (isEnd x) ts

/-- Whether an operand ends with the tokens. -/
def endsOperand (ended : Bool) (ts : List Token) : Bool :=
  ts.foldl (fun _ x => isEnd x) ended

/-- Two lists of tokens are plain if both are, the second one behind what the first one ends with. -/
theorem isPlain_append (ended : Bool) (ts us : List Token) :
    isPlain ended (ts ++ us) = (isPlain ended ts && isPlain (endsOperand ended ts) us) := by
  induction ts generalizing ended with
  | nil => rfl
  | cons x ts ih =>
    rw [List.cons_append, isPlain, isPlain, ih, ← Bool.and_assoc]
    rfl

/-- What is plain where no operand ends is plain elsewhere. -/
theorem isPlain_mono {ts : List Token} (h : isPlain false ts = true) (ended : Bool) :
    isPlain ended ts = true := by
  cases ts with
  | nil => rfl
  | cons x ts =>
    simp only [isPlain, Bool.and_eq_true, Bool.or_false] at h ⊢
    exact ⟨⟨h.1.1, by simp [h.1.2]⟩, h.2⟩

/-- Whether an operand ends with two lists of tokens is told by the second one, unless it is empty. -/
theorem endsOperand_append (ended : Bool) (ts us : List Token) :
    endsOperand ended (ts ++ us) = endsOperand (endsOperand ended ts) us :=
  List.foldl_append

/-- A token of expressions in front of plain tokens is plain, but a twofold one only behind an
operand. -/
theorem isPlain_cons {ended : Bool} {x : Token} {ts : List Token}
    (hx : x ∉ [.mark "&", .mark "|", .mark "."]) (htwofold : isTwofold x = true → ended = true)
    (h : isPlain false ts = true) : isPlain ended (x :: ts) = true := by
  simp only [List.mem_cons, List.not_mem_nil, or_false, not_or] at hx
  simp only [isPlain, Bool.and_eq_true, Bool.or_eq_true, bne_iff_ne, isPlain_mono h, and_true,
    Bool.not_eq_true']
  refine ⟨⟨⟨hx.1, hx.2.1⟩, hx.2.2⟩, ?_⟩
  cases heq : isTwofold x with
  | true => exact .inr (htwofold heq)
  | false => exact .inl rfl

/-- Plain tokens access no members. -/
theorem point_not_mem_of_isPlain {ended : Bool} {ts : List Token} (h : isPlain ended ts = true) :
    .mark "." ∉ ts := by
  induction ts generalizing ended with
  | nil => exact List.not_mem_nil
  | cons x ts ih =>
    simp only [isPlain, Bool.and_eq_true, bne_iff_ne] at h
    rw [List.mem_cons, not_or]
    exact ⟨Ne.symm h.1.1.2, ih h.2⟩

/-- No binary operator is a mark of references or of members. -/
theorem binOp?_mark_not_mem {s : String} {op : BinOp} (h : binOp? s = some op) :
    Token.mark s ∉ [.mark "&", .mark "|", .mark "."] := by
  simp only [List.mem_cons, List.not_mem_nil, or_false, not_or]
  refine ⟨?_, ?_, ?_⟩ <;> rintro ⟨⟩ <;> cases h

/-- The operators in front of an expression are the minus and the negation. -/
theorem unaryOp?_mark {s : String} {op : UnaryOp} (h : unaryOp? s = some op) : s = "-" ∨ s = "!" := by
  rw [unaryOp?.eq_def] at h
  split at h
  · exact .inl rfl
  · exact .inr rfl
  · cases h

/-- The tokens are plain, and an operand ends with them. -/
structure PlainOperand (ts : List Token) : Prop where
  plain : isPlain false ts = true
  ends : ∀ ended, endsOperand ended ts = true

namespace PlainOperand

variable {ts us : List Token}

/-- Two plain operands with a mark of expressions between them. -/
theorem append (h : PlainOperand ts) (h' : PlainOperand us) {x : Token}
    (hx : x ∉ [.mark "&", .mark "|", .mark "."]) : PlainOperand (ts ++ x :: us) where
  plain := by
    rw [isPlain_append, h.plain, h.ends, Bool.true_and]
    exact isPlain_cons hx (fun _ => rfl) h'.plain
  ends ended := by
    rw [endsOperand_append]
    exact h'.ends _

/-- A plain operand behind a token of expressions. -/
theorem cons (h : PlainOperand ts) {x : Token} (hx : x ∉ [.mark "&", .mark "|", .mark "."])
    (htwofold : isTwofold x = false) : PlainOperand (x :: ts) where
  plain := isPlain_cons hx (by simp [htwofold]) h.plain
  ends ended := h.ends _

/-- A single token may be a plain operand. -/
theorem singleton {x : Token} (hx : x ∉ [.mark "&", .mark "|", .mark "."])
    (htwofold : isTwofold x = false) (hend : isEnd x = true) : PlainOperand [x] where
  plain := isPlain_cons hx (by simp [htwofold]) rfl
  ends _ := hend

/-- A plain operand in front of a token that ends operands. -/
theorem concat (h : PlainOperand ts) {x : Token} (hx : x ∉ [.mark "&", .mark "|", .mark "."])
    (hend : isEnd x = true) : PlainOperand (ts ++ [x]) where
  plain := by
    rw [isPlain_append, h.plain, h.ends, Bool.true_and]
    exact isPlain_cons hx (fun _ => rfl) rfl
  ends ended := by
    rw [endsOperand_append]
    exact hend

end PlainOperand

/-- The tokens of an expression are a plain operand. -/
theorem Derives.plainOperand {n : Nat} {ts : List Token} {t : Tree} (h : Derives n ts t) :
    PlainOperand ts := by
  induction h with
  | tighter _ ih => exact ih
  | binary hs _ _ ihl ihr => exact ihl.append ihr (binOp?_mark_not_mem hs)
  | cast _ _ ih => exact ih.append (.singleton (by simp) rfl rfl) (by simp)
  | unary hs _ ih => rcases unaryOp?_mark hs with rfl | rfl <;> exact ih.cons (by decide) (by decide)
  | name | number | bool => exact .singleton (by simp) rfl rfl
  | paren _ ih => exact (ih.cons (x := .mark "(") (by decide) (by decide)).concat (by decide) rfl
  | ifElse _ _ _ ihc iht ihe =>
    have helse := ((ihe.concat (x := .mark "\x7d") (by decide) rfl).cons (x := .mark "\x7b")
      (by decide) (by decide)).cons (x := .word "else") (by decide) rfl
    have hthen := (iht.append helse (x := .mark "\x7d") (by decide))
    have := (ihc.append hthen (x := .mark "\x7b") (by decide)).cons (x := .word "if") (by decide) rfl
    simpa using this

/-- No expression starts with a mark that is not one of expressions there. -/
theorem Derives.not_mark {n : Nat} {s : String} {ts : List Token} {t : Tree}
    (h : Derives n (.mark s :: ts) t) : s ∉ ["&", "|", ".", "*", "&&"] := by
  intro hs
  have hplain := h.plainOperand.plain
  simp only [List.mem_cons, List.not_mem_nil, or_false] at hs
  rcases hs with rfl | rfl | rfl | rfl | rfl <;> simp [Source.isPlain, isTwofold] at hplain

/-- An operator in front is one of expressions, a reference or a dereference. -/
theorem prefixOp?_eq_some {s : String} {op : PrefixOp} (h : prefixOp? s = some op) :
    (∃ op', unaryOp? s = some op' ∧ op = .unary op') ∨ (s = "&" ∧ op = .borrow) ∨
      (s = "*" ∧ op = .deref) := by
  rw [prefixOp?.eq_def] at h
  split at h <;> simp_all [unaryOp?]

/-- Accesses to members start with a point. -/
theorem Chain.run_cons {x : Token} {ts : List Token} {c : Chain} (h : run (x :: ts) = some c) :
    x = .mark "." := by
  rw [run, List.foldlM_cons] at h
  obtain ⟨next, hstep, -⟩ := Option.bind_eq_some_iff.1 h
  unfold step at hstep
  split at hstep <;> simp_all

/-- Tokens that are plain are an expression if they are an item. -/
theorem Phrase.eq_expr {n : Nat} {ts : List Token} {i : Item} (h : Phrase n ts i)
    (hplain : isPlain false ts = true) : ∃ t, i = .expr t ∧ Derives n ts t := by
  induction h with
  | tighter _ ih =>
    obtain ⟨t, rfl, hd⟩ := ih hplain
    exact ⟨t, rfl, hd.tighter⟩
  | @expr n ts t hd => exact ⟨t, rfl, hd⟩
  | @apply s op ts i hs _ ih =>
    rcases prefixOp?_eq_some hs with ⟨op, hunary, rfl⟩ | ⟨rfl, rfl⟩ | ⟨rfl, rfl⟩
    · have hend : isEnd (.mark s) = false := by
        rcases unaryOp?_mark hunary with rfl | rfl <;> decide
      rw [isPlain, hend, Bool.and_eq_true] at hplain
      obtain ⟨t, rfl, hd⟩ := ih hplain.2
      exact ⟨_, rfl, hd.unary hunary⟩
    · simp [isPlain] at hplain
    · simp [isPlain, isTwofold] at hplain
  | borrowMut => simp [isPlain] at hplain
  | double => simp [isPlain, isTwofold] at hplain
  | @cast w p ts i hw _ ih =>
    rw [isPlain_append, Bool.and_eq_true] at hplain
    obtain ⟨t, rfl, hd⟩ := ih hplain.1
    exact ⟨_, rfl, hd.cast hw⟩
  | @binary s op ts us l r hs _ _ ihl ihr =>
    have hend : isEnd (.mark s) = false := by
      simp only [isEnd, Bool.or_eq_false_iff, beq_eq_false_iff_ne]
      constructor <;> rintro rfl <;> cases hs
    rw [isPlain_append, isPlain, hend, Bool.and_eq_true, Bool.and_eq_true] at hplain
    obtain ⟨t, rfl, hd⟩ := ihl hplain.1
    obtain ⟨t', rfl, hd'⟩ := ihr hplain.2.2
    exact ⟨_, rfl, hd.binary hs hd'⟩
  | @members ts us t hchain _ =>
    rw [isPlain_append, Bool.and_eq_true] at hplain
    cases us with
    | nil => cases hchain
    | cons x us =>
      rw [Chain.run_cons hchain] at hplain
      simp [isPlain] at hplain
  | closure => simp [isPlain] at hplain

/-- An item that is an expression is one of the expression grammar. -/
theorem Phrase.derives {n : Nat} {ts : List Token} {t : Tree} (h : Phrase n ts (.expr t)) :
    Derives n ts t := by
  generalize hi : Item.expr t = i at h
  induction h generalizing t with
  | tighter _ ih => exact (ih hi).tighter
  | expr hd =>
    cases hi
    exact hd
  | @apply s op ts i hs _ ih =>
    rcases prefixOp?_eq_some hs with ⟨op, hunary, rfl⟩ | ⟨rfl, rfl⟩ | ⟨rfl, rfl⟩
    · cases i with
      | expr u =>
        cases hi
        exact (ih rfl).unary hunary
      | _ => cases hi
    · cases hi
    · cases hi
  | borrowMut | double => cases hi
  | @cast w p ts i hw _ ih =>
    cases i with
    | expr u =>
      cases hi
      exact (ih rfl).cast hw
    | _ => cases hi
  | @binary s op ts us l r hs _ _ ihl ihr =>
    cases l with
    | expr u =>
      cases r with
      | expr v =>
        cases hi
        exact (ihl rfl).binary hs (ihr rfl)
      | _ => cases hi
    | _ => cases hi
  | members => cases hi
  | closure => cases hi

end Oxidize.Source
