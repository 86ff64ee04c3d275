import Oxidize.Emit.Expr

/-!
# Tokens of the emitted source

`tokens?` reads text as words, numbers and marks, always taking the longest token there is. It goes
over the characters once: a character either makes the token before it longer or ends it and starts
the next one.

`Spells cs ts` says that some characters are read as some tokens wherever they stand, as long as a
blank, a closing parenthesis or the point of a member follows or nothing does. The lemmas on it follow
the ways in which text is put together.
-/

namespace Oxidize.Source

/-- A token. A word is a name, a keyword or the name of a type. -/
inductive Token where
  | word (text : String)
  | number (text : String)
  | mark (text : String)
deriving DecidableEq, Repr

/-- A character that words start with. Outside of ASCII every character counts. -/
def isWordStart (c : Char) : Bool :=
  c.isAlpha || c == '_' || decide (128 ≤ c.toNat)

/-- A character of words. -/
def isWordChar (c : Char) : Bool :=
  isWordStart c || c.isDigit

/-- The digits by their codes. -/
theorem isDigit_iff {c : Char} : c.isDigit = true ↔ 48 ≤ c.toNat ∧ c.toNat ≤ 57 := by
  simp [Char.isDigit, UInt32.le_iff_toNat_le]

/-- The characters that words start with by their codes. -/
theorem isWordStart_iff {c : Char} :
    isWordStart c = true ↔ (65 ≤ c.toNat ∧ c.toNat ≤ 90) ∨ (97 ≤ c.toNat ∧ c.toNat ≤ 122) ∨
      c.toNat = 95 ∨ 128 ≤ c.toNat := by
  have halpha : c.isAlpha = true ↔
      (65 ≤ c.toNat ∧ c.toNat ≤ 90) ∨ (97 ≤ c.toNat ∧ c.toNat ≤ 122) := by
    delta Char.isAlpha Char.isUpper Char.isLower
    simp [UInt32.le_iff_toNat_le]
  have hunderscore : c = '_' ↔ c.toNat = 95 := by
    rw [← Char.toNat_inj]
    rfl
  rw [isWordStart, Bool.or_eq_true, Bool.or_eq_true, halpha, beq_iff_eq, hunderscore,
    decide_eq_true_eq]
  omega

/-- Whether characters are a word. -/
def isWord : List Char → Bool
  | [] => false
  | c :: cs => isWordStart c && cs.all isWordChar

/-- A word is a character that words start with and then characters of words. -/
theorem isWord_iff {cs : List Char} :
    isWord cs = true ↔
      ∃ d ds, cs = d :: ds ∧ isWordStart d = true ∧ ∀ e ∈ ds, isWordChar e = true := by
  cases cs with
  | nil => simp [isWord]
  | cons c cs =>
    rw [isWord, Bool.and_eq_true, List.all_eq_true]
    constructor
    · rintro ⟨hc, hcs⟩
      exact ⟨c, cs, rfl, hc, hcs⟩
    · rintro ⟨d, ds, heq, hd, hds⟩
      cases heq
      exact ⟨hd, hds⟩

/-- The operators and delimiters. -/
def marks : List (List Char) :=
  [['('], [')'], ['['], [']'], ['\x7b'], ['\x7d'], ['+'], ['-'], ['*'], ['/'], ['%'], ['^'], ['!'],
    ['&'], ['|'], ['='], ['<'], ['>'], ['.'], [','], [';'], [':'], ['#'], ['?'], ['@'], ['$'], ['~'],
    ['+', '='], ['-', '='], ['*', '='], ['/', '='], ['%', '='], ['^', '='], ['&', '='], ['|', '='],
    ['=', '='], ['!', '='], ['<', '='], ['>', '='], ['&', '&'], ['|', '|'], ['<', '<'], ['>', '>'],
    ['-', '>'], ['=', '>'], ['<', '-'], [':', ':'], ['.', '.'], ['<', '<', '='], ['>', '>', '='],
    ['.', '.', '.'], ['.', '.', '=']]

/-- What was read of a token. -/
inductive Pending where
  | nothing
  | word (cs : List Char)
  | number (cs : List Char)
  | mark (cs : List Char)
deriving DecidableEq

namespace Pending

/-- The longer token, if the character can be added to it. A word may have a raw mark in front, and a
point belongs to a number if a digit follows it. -/
def extend? (next : Option Char) (c : Char) : Pending → Option Pending
  | .nothing => none
  | .word cs =>
    if isWordChar c || (c == '#' && cs == ['r'] && next.any isWordStart) then
      some (.word (cs ++ [c]))
    else none
  | .number cs =>
    if isWordChar c || (c == '.' && !cs.contains '.' && next.any Char.isDigit) then
      some (.number (cs ++ [c]))
    else none
  | .mark cs => if marks.contains (cs ++ [c]) then some (.mark (cs ++ [c])) else none

/-- The token that a character starts, if any does. A blank starts none. -/
def start? (c : Char) : Option Pending :=
  if c = ' ' then some .nothing
  else if isWordStart c then some (.word [c])
  else if c.isDigit then some (.number [c])
  else if marks.contains [c] then some (.mark [c])
  else none

/-- The token, complete. -/
def tokens : Pending → List Token
  | .nothing => []
  | .word cs => [.word (String.ofList cs)]
  | .number cs => [.number (String.ofList cs)]
  | .mark cs => [.mark (String.ofList cs)]

end Pending

/-- The tokens of characters, the first of which goes on with what was read already. -/
def scan : Pending → List Char → Option (List Token)
  | pending, [] => some pending.tokens
  | pending, c :: cs =>
    match pending.extend? cs.head? c with
    | some longer => scan longer cs
    | none => do
      let started ← Pending.start? c
      let rest ← scan started cs
      return pending.tokens ++ rest

/-- The tokens of a text, unless it has a character that starts none. -/
def tokens? (text : String) : Option (List Token) :=
  scan .nothing text.toList

/-! ## Ends of tokens -/

/-- A token that a character does not continue is complete before it. -/
theorem scan_eq_of_extend? {pending : Pending} {c : Char} {cs : List Char}
    (h : pending.extend? cs.head? c = none) :
    scan pending (c :: cs) = (scan .nothing (c :: cs)).map (pending.tokens ++ ·) := by
  rw [scan, h, scan]
  simp only [Pending.extend?]
  cases Pending.start? c with
  | none => rfl
  | some started => cases h : scan started cs <;> simp [Pending.tokens, h]

/-- Nothing, a blank, a closing parenthesis or a point that no digit follows comes next. -/
def Ends (rest : List Char) : Prop :=
  ∀ c ∈ rest.head?, c = ' ' ∨ c = ')' ∨ (c = '.' ∧ rest.tail.head?.any Char.isDigit = false)

/-- The end of the text ends a token. -/
theorem ends_nil : Ends [] :=
  nofun

/-- A blank ends a token. -/
theorem ends_blank (rest : List Char) : Ends (' ' :: rest) := by
  simp [Ends]

/-- A closing parenthesis ends a token. -/
theorem ends_close (rest : List Char) : Ends (')' :: rest) := by
  simp [Ends]

/-- A point ends a token if no digit follows it. -/
theorem ends_point {rest : List Char} (h : rest.head?.any Char.isDigit = false) :
    Ends ('.' :: rest) := by
  rintro c ⟨⟩
  exact .inr (.inr ⟨rfl, h⟩)

/-- The end of a token that none of these continues. -/
theorem scan_of_ends {pending : Pending} {rest : List Char} (hrest : Ends rest)
    (hblank : ∀ next, pending.extend? next ' ' = none)
    (hclose : ∀ next, pending.extend? next ')' = none)
    (hpoint : ∀ next, next.any Char.isDigit = false → pending.extend? next '.' = none) :
    scan pending rest = (scan .nothing rest).map (pending.tokens ++ ·) := by
  cases rest with
  | nil => simp [scan, Pending.tokens]
  | cons c rest =>
    refine scan_eq_of_extend? ?_
    rcases hrest c rfl with rfl | rfl | ⟨rfl, hdigit⟩
    · exact hblank _
    · exact hclose _
    · exact hpoint _ hdigit

/-- A word is complete where a token ends. -/
theorem scan_word_of_ends {w rest : List Char} (hrest : Ends rest) :
    scan (.word w) rest = (scan .nothing rest).map ([.word (String.ofList w)] ++ ·) :=
  scan_of_ends hrest (fun _ => by simp [Pending.extend?, isWordChar, isWordStart])
    (fun _ => by simp [Pending.extend?, isWordChar, isWordStart])
    (fun _ _ => by simp [Pending.extend?, isWordChar, isWordStart])

/-- A number is complete where a token ends. -/
theorem scan_number_of_ends {w rest : List Char} (hrest : Ends rest) :
    scan (.number w) rest = (scan .nothing rest).map ([.number (String.ofList w)] ++ ·) :=
  scan_of_ends hrest (fun _ => by simp [Pending.extend?, isWordChar, isWordStart])
    (fun _ => by simp [Pending.extend?, isWordChar, isWordStart])
    (fun _ hdigit => by simp [Pending.extend?, isWordChar, isWordStart, hdigit])

/-- The end of a mark that the next character does not continue. -/
theorem scan_mark_end {m rest : List Char} (hrest : ∀ c ∈ rest.head?, m ++ [c] ∉ marks) :
    scan (.mark m) rest = (scan .nothing rest).map ([.mark (String.ofList m)] ++ ·) := by
  cases rest with
  | nil => simp [scan, Pending.tokens]
  | cons c rest =>
    refine scan_eq_of_extend? ?_
    simp [Pending.extend?, hrest c rfl]

/-! ## Starts of tokens -/

/-- A character starts a token. -/
theorem scan_start {c : Char} {cs : List Char} {started : Pending}
    (h : Pending.start? c = some started) : scan .nothing (c :: cs) = scan started cs := by
  simp only [scan, Pending.extend?, h]
  cases hs : scan started cs <;> simp [hs, Pending.tokens]

/-- A character is added to a token. -/
theorem scan_extend {c : Char} {cs : List Char} {pending longer : Pending}
    (h : pending.extend? cs.head? c = some longer) : scan pending (c :: cs) = scan longer cs := by
  rw [scan, h]

/-- Blanks between tokens are skipped. -/
theorem scan_blank (rest : List Char) : scan .nothing (' ' :: rest) = scan .nothing rest :=
  scan_start rfl

/-- A mark that the character after it does not continue. -/
theorem scan_mark {m : Char} {rest : List Char} (hm : Pending.start? m = some (.mark [m]))
    (hrest : ∀ c ∈ rest.head?, [m, c] ∉ marks) :
    scan .nothing (m :: rest) = (scan .nothing rest).map ([.mark (String.ofList [m])] ++ ·) := by
  rw [scan_start hm]
  exact scan_mark_end hrest

/-- A mark of two characters. -/
theorem scan_mark₂ {m n : Char} {rest : List Char} (hm : Pending.start? m = some (.mark [m]))
    (hn : [m, n] ∈ marks) (hrest : ∀ c ∈ rest.head?, [m, n, c] ∉ marks) :
    scan .nothing (m :: n :: rest) =
      (scan .nothing rest).map ([.mark (String.ofList [m, n])] ++ ·) := by
  have hlonger : Pending.extend? rest.head? n (.mark [m]) = some (.mark [m, n]) := by
    simp [Pending.extend?, hn]
  rw [scan_start hm, scan_extend hlonger]
  exact scan_mark_end hrest

/-- The characters of a word make it longer. -/
theorem scan_word_chars {w cs rest : List Char} (hcs : ∀ c ∈ cs, isWordChar c = true) :
    scan (.word w) (cs ++ rest) = scan (.word (w ++ cs)) rest := by
  induction cs generalizing w with
  | nil => rw [List.nil_append, List.append_nil]
  | cons c cs ih =>
    obtain ⟨hc, hcs⟩ := List.forall_mem_cons.1 hcs
    have hlonger : Pending.extend? (cs ++ rest).head? c (.word w) = some (.word (w ++ [c])) := by
      simp [Pending.extend?, hc]
    rw [List.cons_append, scan_extend hlonger, ih hcs, List.append_assoc, List.singleton_append]

/-- The digits of a number make it longer. -/
theorem scan_number_digits {w cs rest : List Char} (hcs : ∀ c ∈ cs, c.isDigit = true) :
    scan (.number w) (cs ++ rest) = scan (.number (w ++ cs)) rest := by
  induction cs generalizing w with
  | nil => rw [List.nil_append, List.append_nil]
  | cons c cs ih =>
    obtain ⟨hc, hcs⟩ := List.forall_mem_cons.1 hcs
    have hlonger : Pending.extend? (cs ++ rest).head? c (.number w) = some (.number (w ++ [c])) := by
      simp [Pending.extend?, isWordChar, hc]
    rw [List.cons_append, scan_extend hlonger, ih hcs, List.append_assoc, List.singleton_append]

/-! ## Spelling -/

/-- The characters are read as the tokens, whatever follows after the end of the last one. -/
def Scans (cs : List Char) (ts : List Token) : Prop :=
  ∀ rest, Ends rest → scan .nothing (cs ++ rest) = (scan .nothing rest).map (ts ++ ·)

/-- Characters that are read as tokens anywhere are so at the end. -/
theorem Scans.scan_eq {cs : List Char} {ts : List Token} (h : Scans cs ts) :
    scan .nothing cs = some ts := by
  have hscan := h [] ends_nil
  rw [List.append_nil] at hscan
  rw [hscan]
  simp [scan, Pending.tokens]

/-- Texts with a blank between them. -/
theorem Scans.blank {cs ds : List Char} {ts us : List Token} (hcs : Scans cs ts)
    (hds : Scans ds us) : Scans (cs ++ ' ' :: ds) (ts ++ us) := by
  intro rest hrest
  rw [List.append_assoc, List.cons_append, hcs _ (ends_blank _), scan_blank, hds rest hrest]
  cases scan .nothing rest <;> simp

/-- A mark that a blank, a closing parenthesis or a point ends. -/
theorem scans_mark {m : Char} (hm : Pending.start? m = some (.mark [m]))
    (hnext : [m, ' '] ∉ marks ∧ [m, ')'] ∉ marks ∧ [m, '.'] ∉ marks) :
    Scans [m] [.mark (String.ofList [m])] := by
  intro rest hrest
  refine scan_mark hm fun c hc => ?_
  rcases hrest c hc with rfl | rfl | ⟨rfl, -⟩
  · exact hnext.1
  · exact hnext.2.1
  · exact hnext.2.2

/-- A mark of two characters is one token. -/
theorem scans_mark₂ {m n : Char} (hm : Pending.start? m = some (.mark [m])) (hn : [m, n] ∈ marks)
    (hnext : [m, n, ' '] ∉ marks ∧ [m, n, ')'] ∉ marks ∧ [m, n, '.'] ∉ marks) :
    Scans [m, n] [.mark (String.ofList [m, n])] := by
  intro rest hrest
  refine scan_mark₂ hm hn fun c hc => ?_
  rcases hrest c hc with rfl | rfl | ⟨rfl, -⟩
  · exact hnext.1
  · exact hnext.2.1
  · exact hnext.2.2

/-- The tokens of a call of a member without arguments. -/
def callTokens (name : String) : List Token :=
  [.mark ".", .word name, .mark "(", .mark ")"]

/-- A call of a member without arguments. -/
theorem scans_call {name : List Char} (h : isWord name = true) :
    Scans ('.' :: name ++ ['(', ')']) (callTokens (String.ofList name)) := by
  intro rest hrest
  obtain ⟨c, cs, rfl, hc, hcs⟩ := isWord_iff.1 h
  have hstart : Pending.start? c = some (.word [c]) := by
    have hne : c ≠ ' ' := by rintro rfl; exact absurd hc (by decide)
    simp [Pending.start?, hne, hc]
  have hpoint : scan .nothing ('.' :: c :: cs ++ '(' :: ')' :: rest) =
      (scan .nothing (c :: cs ++ '(' :: ')' :: rest)).map ([.mark "."] ++ ·) := by
    refine scan_mark (by decide) fun d hd hmem => ?_
    obtain rfl : c = d := by simpa using hd
    obtain rfl : c = '.' := by simpa [marks] using hmem
    exact absurd hc (by decide)
  have hname : scan .nothing (c :: cs ++ '(' :: ')' :: rest) =
      (scan .nothing ('(' :: ')' :: rest)).map ([.word (String.ofList (c :: cs))] ++ ·) := by
    rw [List.cons_append, scan_start hstart, scan_word_chars hcs]
    exact scan_eq_of_extend? (by simp [Pending.extend?, isWordChar, isWordStart])
  have hopen : scan .nothing ('(' :: ')' :: rest) =
      (scan .nothing (')' :: rest)).map ([.mark "("] ++ ·) :=
    scan_mark (by decide) (by rintro d ⟨⟩; decide)
  have hclose : scan .nothing (')' :: rest) = (scan .nothing rest).map ([.mark ")"] ++ ·) :=
    scans_mark (by decide) (by decide) rest hrest
  rw [List.append_assoc]
  refine hpoint.trans ?_
  rw [hname, hopen, hclose]
  cases scan .nothing rest <;> simp [callTokens]

/-- The characters of an operator. -/
def symbolChars : BinOp → List Char
  | .add => ['+']
  | .sub => ['-']
  | .mul => ['*']
  | .div => ['/']
  | .rem => ['%']
  | .eq => ['=', '=']
  | .ne => ['!', '=']
  | .lt => ['<']
  | .gt => ['>']
  | .le => ['<', '=']
  | .ge => ['>', '=']
  | .and => ['&', '&']
  | .or => ['|', '|']

/-- The symbol of an operator is made of its characters. -/
theorem symbol_eq (op : BinOp) : op.symbol = String.ofList (symbolChars op) := by
  cases op <;> rfl

/-- The symbol of an operator is one token. -/
theorem scans_symbol (op : BinOp) : Scans op.symbol.toList [.mark op.symbol] := by
  rw [symbol_eq, String.toList_ofList]
  cases op with
  | add | sub | mul | div | rem | lt | gt => exact scans_mark (by decide) (by decide)
  | eq | ne | le | ge | and | or => exact scans_mark₂ (by decide) (by decide) (by decide)

/-- A character that the text of an expression starts with. -/
def Leads (c : Char) : Prop :=
  isWordStart c = true ∨ c.isDigit = true ∨ c = '(' ∨ c = '-' ∨ c = '!'

instance (c : Char) : Decidable (Leads c) :=
  inferInstanceAs (Decidable (_ ∨ _))

/-- The characters are those of an expression and are read as the tokens. -/
structure Spells (cs : List Char) (ts : List Token) : Prop where
  leads : ∃ c ∈ cs.head?, Leads c
  scans : Scans cs ts

/-- A text that spells tokens is read as them. -/
theorem Spells.tokens?_eq {text : String} {ts : List Token} (h : Spells text.toList ts) :
    tokens? text = some ts :=
  h.scans.scan_eq

/-- A word spells one token. -/
theorem spells_word {cs : List Char} (h : isWord cs = true) :
    Spells cs [.word (String.ofList cs)] := by
  obtain ⟨c, cs, rfl, hc, hcs⟩ := isWord_iff.1 h
  refine ⟨⟨c, rfl, .inl hc⟩, fun rest hrest => ?_⟩
  have hstart : Pending.start? c = some (.word [c]) := by
    have hne : c ≠ ' ' := by rintro rfl; exact absurd hc (by decide)
    simp [Pending.start?, hne, hc]
  rw [List.cons_append, scan_start hstart, scan_word_chars hcs]
  exact scan_word_of_ends hrest

/-- A word with the raw mark in front. -/
theorem spells_raw_word {cs : List Char} (h : isWord cs = true) :
    Spells ('r' :: '#' :: cs) [.word (String.ofList ('r' :: '#' :: cs))] := by
  obtain ⟨c, cs, rfl, hc, hcs⟩ := isWord_iff.1 h
  refine ⟨⟨'r', rfl, .inl (by decide)⟩, fun rest hrest => ?_⟩
  have hraw : Pending.extend? (c :: cs ++ rest).head? '#' (.word ['r']) =
      some (.word ['r', '#']) := by
    simp [Pending.extend?, hc]
  have hall : ∀ d ∈ c :: cs, isWordChar d = true :=
    List.forall_mem_cons.2 ⟨by simp [isWordChar, hc], hcs⟩
  have hstart : Pending.start? 'r' = some (.word ['r']) := by decide
  rw [List.cons_append, scan_start hstart, List.cons_append, scan_extend hraw,
    scan_word_chars hall]
  exact scan_word_of_ends hrest

/-- A digit starts a number. -/
theorem start?_of_isDigit {c : Char} (hc : c.isDigit = true) :
    Pending.start? c = some (.number [c]) := by
  have hne : c ≠ ' ' := by rintro rfl; exact absurd hc (by decide)
  have hstart : isWordStart c = false := by
    rw [Bool.eq_false_iff, Ne, isWordStart_iff]
    have := isDigit_iff.1 hc
    omega
  simp [Pending.start?, hne, hstart, hc]

/-- A number without a fraction. -/
theorem spells_digits {c : Char} {cs : List Char} (hc : c.isDigit = true)
    (hcs : ∀ d ∈ cs, d.isDigit = true) :
    Spells (c :: cs) [.number (String.ofList (c :: cs))] where
  leads := ⟨c, rfl, .inr (.inl hc)⟩
  scans rest hrest := by
    rw [List.cons_append, scan_start (start?_of_isDigit hc), scan_number_digits hcs]
    exact scan_number_of_ends hrest

/-- A number with a fraction. -/
theorem spells_fraction {c d : Char} {cs ds : List Char} (hc : c.isDigit = true)
    (hcs : ∀ e ∈ cs, e.isDigit = true) (hd : d.isDigit = true) (hds : ∀ e ∈ ds, e.isDigit = true) :
    Spells (c :: cs ++ '.' :: d :: ds) [.number (String.ofList (c :: cs ++ '.' :: d :: ds))] where
  leads := ⟨c, rfl, .inr (.inl hc)⟩
  scans rest hrest := by
    have hdigits : ∀ e ∈ c :: cs, e.isDigit = true := List.forall_mem_cons.2 ⟨hc, hcs⟩
    have hnodot : '.' ∉ c :: cs := fun hmem => absurd (hdigits '.' hmem) (by decide)
    have hpoint : Pending.extend? (d :: ds ++ rest).head? '.' (.number (c :: cs)) =
        some (.number (c :: cs ++ ['.'])) := by
      simp only [List.mem_cons, not_or] at hnodot
      simp [Pending.extend?, hnodot, hd]
    have hall : ∀ e ∈ d :: ds, e.isDigit = true := List.forall_mem_cons.2 ⟨hd, hds⟩
    rw [List.append_assoc, List.cons_append, scan_start (start?_of_isDigit hc),
      scan_number_digits hcs, List.singleton_append, List.cons_append, scan_extend hpoint,
      scan_number_digits hall, List.append_assoc, List.singleton_append]
    exact scan_number_of_ends hrest

namespace Spells

variable {cs ds es : List Char} {ts us vs : List Token}

/-- Only `<` goes on with the start of an expression, in `<-`. -/
theorem head_not_mark (h : Spells cs ts) {m : Char} (hm : m ≠ '<') (rest : List Char) :
    ∀ c ∈ (cs ++ rest).head?, [m, c] ∉ marks := by
  have hmarks : ∀ mark ∈ marks, mark.head? ≠ some '<' → mark.length = 2 →
      (mark.getLast?.all fun d => decide ¬Leads d) = true := by
    decide
  obtain ⟨d, hd, hlead⟩ := h.leads
  obtain ⟨tail, rfl⟩ := List.head?_eq_some_iff.1 hd
  intro c hc hmem
  obtain rfl : d = c := by simpa using hc
  have hlast := hmarks [m, d] hmem (by simpa using hm) rfl
  exact of_decide_eq_true hlast hlead

/-- A mark in front of an expression. -/
theorem mark (h : Spells cs ts) {m : Char} (hm : Pending.start? m = some (.mark [m]))
    (hne : m ≠ '<') : Scans (m :: cs) (.mark (String.ofList [m]) :: ts) := by
  intro rest hrest
  rw [List.cons_append, scan_mark hm (h.head_not_mark hne rest), h.scans rest hrest]
  cases scan .nothing rest <;> rfl

/-- An expression in parentheses. -/
theorem paren (h : Spells cs ts) : Spells ('(' :: cs ++ [')']) (.mark "(" :: ts ++ [.mark ")"]) where
  leads := ⟨'(', rfl, .inr (.inr (.inl rfl))⟩
  scans rest hrest := by
    have hclose : scan .nothing (')' :: rest) = (scan .nothing rest).map ([.mark ")"] ++ ·) := by
      refine scan_mark (by decide) fun c hc => ?_
      rcases hrest c hc with rfl | rfl | ⟨rfl, -⟩ <;> decide
    have hopen := scan_mark (m := '(') (by decide) (h.head_not_mark (by decide) (')' :: rest))
    rw [List.append_assoc, List.cons_append, List.singleton_append, hopen,
      h.scans _ (ends_close rest), hclose]
    cases scan .nothing rest <;> simp

/-- An expression with a unary operator in front. -/
theorem unary (op : UnaryOp) (h : Spells cs ts) :
    Spells (op.symbol.toList ++ cs) (.mark op.symbol :: ts) := by
  have hmark : ∀ m, m = '-' ∨ m = '!' → Pending.start? m = some (.mark [m]) →
      Spells (m :: cs) (.mark (String.ofList [m]) :: ts) := by
    intro m hm hstart
    refine ⟨⟨m, rfl, .inr (.inr (.inr hm))⟩, h.mark hstart ?_⟩
    rcases hm with rfl | rfl <;> decide
  cases op with
  | neg => exact hmark '-' (.inl rfl) (by decide)
  | not => exact hmark '!' (.inr rfl) (by decide)

/-- An expression and more. -/
theorem append (h : Spells cs ts) (hds : ∀ rest, Ends rest → Ends (ds ++ rest)) (h' : Scans ds us) :
    Spells (cs ++ ds) (ts ++ us) where
  leads := by
    obtain ⟨c, hc, hlead⟩ := h.leads
    obtain ⟨tail, rfl⟩ := List.head?_eq_some_iff.1 hc
    exact ⟨c, rfl, hlead⟩
  scans rest hrest := by
    rw [List.append_assoc, h.scans _ (hds rest hrest), h' rest hrest]
    cases scan .nothing rest <;> simp

/-- An expression and a call of one of its members without arguments. -/
theorem call (h : Spells cs ts) (name : List Char) (hname : isWord name = true) :
    Spells (cs ++ ('.' :: name ++ ['(', ')'])) (ts ++ callTokens (String.ofList name)) := by
  refine h.append (fun rest _ => ?_) (scans_call hname)
  obtain ⟨c, cs, rfl, hc, -⟩ := isWord_iff.1 hname
  refine ends_point ?_
  have hdigit : c.isDigit = false := by
    rw [Bool.eq_false_iff, Ne, isDigit_iff]
    have := isWordStart_iff.1 hc
    omega
  simpa using hdigit

/-- An expression, a blank and more. -/
theorem blank (h : Spells cs ts) (h' : Scans ds us) : Spells (cs ++ ' ' :: ds) (ts ++ us) := by
  refine h.append (fun _ _ => ends_blank _) fun rest hrest => ?_
  rw [List.cons_append, scan_blank, h' rest hrest]

/-- Two expressions with a binary operator between them. -/
theorem binary (op : BinOp) (h : Spells cs ts) (h' : Spells ds us) :
    Spells (cs ++ ' ' :: (op.symbol.toList ++ ' ' :: ds)) (ts ++ .mark op.symbol :: us) :=
  h.blank ((scans_symbol op).blank h'.scans)

/-- An expression and the type it is cast to. -/
theorem cast (h : Spells cs ts) (h' : Spells ds us) :
    Spells (cs ++ ' ' :: 'a' :: 's' :: ' ' :: ds) (ts ++ .word "as" :: us) := by
  have has : Spells ['a', 's'] [.word "as"] := spells_word (by decide)
  exact h.blank (has.scans.blank h'.scans)

/-- A choice between two expressions. -/
theorem ifElse (h : Spells cs ts) (h' : Spells ds us) (h'' : Spells es vs) :
    Spells ("if ".toList ++ cs ++ " \x7b ".toList ++ ds ++ " \x7d else \x7b ".toList ++ es ++
        " \x7d".toList)
      (.word "if" :: ts ++ .mark "\x7b" :: us ++ .mark "\x7d" :: .word "else" ::
        .mark "\x7b" :: vs ++ [.mark "\x7d"]) := by
  have hopen : Scans ['\x7b'] [.mark "\x7b"] := scans_mark (by decide) (by decide)
  have hclose : Scans ['\x7d'] [.mark "\x7d"] := scans_mark (by decide) (by decide)
  have hif : Spells ['i', 'f'] [.word "if"] := spells_word (by decide)
  have helse : Spells ['e', 'l', 's', 'e'] [.word "else"] := spells_word (by decide)
  have := hif.blank (h.scans.blank (hopen.blank (h'.scans.blank (hclose.blank
    (helse.scans.blank (hopen.blank (h''.scans.blank hclose)))))))
  simpa using this

end Spells

end Oxidize.Source
