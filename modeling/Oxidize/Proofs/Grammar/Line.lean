import Oxidize.Emit.Stmt
import Oxidize.Proofs.Grammar.Token

/-!
# Lines of the emitted source

`Source.lineKind` reads off the text of a line what it does to the names in scope: a `let` declares a
variable, a line that ends with a brace opens a block, one that starts with a brace closes a block, and
so on. It looks at the first word of the line, at what follows that word, and at the last character.
From this `Source.lineScopes` finds out the names in scope on each line of a function body.

Most lines hold text of expressions, which may be anything as far as `lineKind` is concerned.
`Source.Begins` says what such text has to start with so that the line is not taken for a declaration,
and `Source.endsPlain` that it does not end like a block; both carry over to longer texts.
-/

namespace Oxidize.Source

/-! ## Reading a line -/

/-- A character of a name as it is written, the mark of a raw name included. -/
def isNameChar (c : Char) : Bool :=
  isWordChar c || c == '#'

/-- What a line does to the names in scope. -/
inductive LineKind where
  | plain
  | letVar (name : String)
  /-- The line opens a block. -/
  | opens
  /-- The line opens a block with a variable of its own. -/
  | loop (name : String)
  /-- The line binds a name for its own guard, and for the block that it may open. -/
  | guard (name : String) (isBlock : Bool)
  | closes
  /-- The line closes a block and opens another one. -/
  | reopens
deriving DecidableEq, Repr

/-- The name that is declared at the start of a text. -/
def declaredName (cs : List Char) : String :=
  let name := if "mut ".toList.isPrefixOf cs then cs.drop 4 else cs
  String.ofList (name.takeWhile isNameChar)

/-- What a line does that starts with the given word, by what follows the word. A name before `if` is
bound by a pattern; a keyword there starts an expression. -/
def wordKind (isBlock : Bool) (word : String) (rest : List Char) : LineKind :=
  if word == "let" then .letVar (declaredName (rest.drop 1))
  else if word == "for" then .loop (declaredName (rest.drop 1))
  else if !Name.keywords.contains word && " if ".toList.isPrefixOf rest then .guard word isBlock
  else if isBlock then .opens else .plain

/-- What a line does, by its text. -/
def lineKind (text : String) : LineKind :=
  let line := text.toList.dropWhile (· == ' ')
  let isBlock := line.getLast? == some '\x7b'
  if line.head? == some '\x7d' then if isBlock then .reopens else .closes
  else wordKind isBlock (String.ofList (line.takeWhile isNameChar)) (line.dropWhile isNameChar)

example : lineKind "    let mut user_id: f64 = 1;" = .letVar "user_id" := by decide +kernel

/-- Indentation does not matter. -/
theorem lineKind_indentation (level : Nat) (text : String) :
    lineKind (indentation level ++ text) = lineKind text := by
  have hblanks : ∀ c ∈ (indentation level).toList, (c == ' ') = true := by
    intro c hc
    rw [indentation, String.toList_ofList, List.mem_replicate] at hc
    exact beq_iff_eq.2 hc.2
  rw [lineKind, String.toList_append, List.dropWhile_append_of_pos hblanks]
  rfl

/-! ## Names -/

/-- The text is a name: characters of names and no keyword. -/
structure IsNameText (text : String) : Prop where
  ne_nil : text.toList ≠ []
  chars : ∀ c ∈ text.toList, isNameChar c = true
  not_keyword : text ∉ Name.keywords

/-- Whether the text is a name. -/
def isNameText (text : String) : Bool :=
  !text.toList.isEmpty && text.toList.all isNameChar && !Name.keywords.contains text

namespace IsNameText

/-- A text that the check takes for a name is one. -/
theorem of_isNameText {text : String} (h : isNameText text = true) : IsNameText text := by
  simp only [isNameText, Bool.and_eq_true, Bool.not_eq_true', List.all_eq_true] at h
  obtain ⟨⟨hne, hchars⟩, hkeyword⟩ := h
  exact ⟨by simpa using hne, hchars, by simpa using hkeyword⟩

/-- A name is no keyword. -/
theorem ne_keyword {text word : String} (h : IsNameText text) (hword : word ∈ Name.keywords) :
    text ≠ word := by
  rintro rfl
  exact h.not_keyword hword

end IsNameText

/-- Whether the text does not go on with a name. -/
def startsApart (cs : List Char) : Bool :=
  cs.head?.all fun c => !isNameChar c

/-- A word is read up to where it ends. -/
theorem takeWhile_word {w r : List Char} (hw : ∀ c ∈ w, isNameChar c = true)
    (hr : startsApart r = true) :
    (w ++ r).takeWhile isNameChar = w ∧ (w ++ r).dropWhile isNameChar = r := by
  rw [List.takeWhile_append_of_pos hw, List.dropWhile_append_of_pos hw]
  cases r with
  | nil => exact ⟨List.append_nil w, rfl⟩
  | cons c r =>
    have hc : isNameChar c = false := by simpa [startsApart] using hr
    rw [List.takeWhile_cons_of_neg (by simp [hc]), List.dropWhile_cons_of_neg (by simp [hc])]
    exact ⟨List.append_nil w, rfl⟩

/-- The declared name is read with or without the mark of a mutable variable. -/
theorem declaredName_mutText {name : String} (h : IsNameText name) (isMut : Bool) {rest : List Char}
    (hrest : startsApart rest = true) :
    declaredName ((mutText isMut ++ name).toList ++ rest) = name := by
  obtain ⟨htake, -⟩ := takeWhile_word h.chars hrest
  cases isMut with
  | true =>
    have hstart : declaredName ((mutText true ++ name).toList ++ rest) =
        String.ofList ((name.toList ++ rest).takeWhile isNameChar) := by
      simp [declaredName, mutText, List.isPrefixOf]
    rw [hstart, htake, String.ofList_toList]
  | false =>
    have hplain : ("mut ".toList.isPrefixOf (name.toList ++ rest)) = false := by
      rw [Bool.eq_false_iff]
      intro hmut
      obtain ⟨more, hmore⟩ := List.isPrefixOf_iff_prefix.1 hmut
      -- then the name is the word before the blank
      have hname : name.toList = "mut".toList := by
        rw [← htake, ← hmore]
        exact (takeWhile_word (w := "mut".toList) (List.all_eq_true.1 (by decide)) (r := ' ' :: more)
          rfl).1
      exact h.ne_keyword (by decide) (String.toList_inj.1 hname)
    have hempty : (mutText false ++ name).toList = name.toList := by simp [mutText]
    rw [hempty, declaredName, hplain, if_neg Bool.false_ne_true, htake, String.ofList_toList]

/-! ## Lines by their first word -/

/-- Whether the line ends with an opening brace. -/
def isBlock (text : String) : Bool :=
  text.toList.getLast? == some '\x7b'

/-- The first word of a line and what follows it decide. -/
theorem lineKind_word {word rest : String} (hne : word.toList ≠ [])
    (hall : word.toList.all isNameChar = true) (hrest : startsApart rest.toList = true) :
    lineKind (word ++ rest) = wordKind (isBlock (word ++ rest)) word rest.toList := by
  have hchars := List.all_eq_true.1 hall
  obtain ⟨c, cs, hword⟩ := List.exists_cons_of_ne_nil hne
  have hc : isNameChar c = true := hchars c (by simp [hword])
  have hblank : (c == ' ') = false := by
    rw [beq_eq_false_iff_ne]
    rintro rfl
    exact absurd hc (by decide)
  have hclose : (some c == some '\x7d') = false := by
    rw [beq_eq_false_iff_ne]
    rintro ⟨⟩
    exact absurd hc (by decide)
  have hline : (word ++ rest).toList.dropWhile (· == ' ') = word.toList ++ rest.toList := by
    rw [String.toList_append, hword, List.cons_append, List.dropWhile_cons_of_neg (by simp [hblank])]
  have hhead : (word.toList ++ rest.toList).head? = some c := by rw [hword]; rfl
  obtain ⟨htake, hdrop⟩ := takeWhile_word hchars hrest
  rw [isBlock, String.toList_append]
  simp only [lineKind, hline, hhead, hclose, htake, hdrop, String.ofList_toList, Bool.false_eq_true,
    if_false]

/-- The line of a declaration declares its name. -/
theorem lineKind_letVar {name : String} (h : IsNameText name) (isMut : Bool) {rest : String}
    (hrest : startsApart rest.toList = true) :
    lineKind ("let " ++ mutText isMut ++ name ++ rest) = .letVar name := by
  have hline : "let " ++ mutText isMut ++ name ++ rest =
      "let" ++ (" " ++ (mutText isMut ++ name ++ rest)) := by
    simp [← String.toList_inj]
  rw [hline, lineKind_word (by decide) (by decide) (by simp [startsApart]; decide)]
  have hread := declaredName_mutText h isMut hrest
  rw [← String.toList_append] at hread
  simpa [wordKind] using hread

/-- The line of a loop declares the name of its variable. -/
theorem lineKind_loop {name : String} (h : IsNameText name) (isMut : Bool) {rest : String}
    (hrest : startsApart rest.toList = true) :
    lineKind ("for " ++ mutText isMut ++ name ++ rest) = .loop name := by
  have hline : "for " ++ mutText isMut ++ name ++ rest =
      "for" ++ (" " ++ (mutText isMut ++ name ++ rest)) := by
    simp [← String.toList_inj]
  rw [hline, lineKind_word (by decide) (by decide) (by simp [startsApart]; decide)]
  have hread := declaredName_mutText h isMut hrest
  rw [← String.toList_append] at hread
  simpa [wordKind] using hread

/-- The line of a guard binds its name. -/
theorem lineKind_guard (rest : String) :
    lineKind ("x if " ++ rest) = .guard "x" (isBlock ("x if " ++ rest)) := by
  have hline : "x if " ++ rest = "x" ++ (" if " ++ rest) := by simp [← String.toList_inj]
  rw [hline, lineKind_word (by decide) (by decide) (by simp [startsApart]; decide)]
  simp [wordKind, Name.keywords]

/-- A brace closes a block, whatever stands between it and the next block. -/
theorem lineKind_reopens {text : String} (h : isBlock ("\x7d" ++ text) = true) :
    lineKind ("\x7d" ++ text) = .reopens := by
  have hline : ("\x7d" ++ text).toList.dropWhile (· == ' ') = ("\x7d" ++ text).toList := by simp
  have hhead : ("\x7d" ++ text).toList.head? = some '\x7d' := by simp
  rw [isBlock] at h
  simp only [lineKind, hline, hhead, h, beq_self_eq_true, if_true]

/-! ## Lines of expressions -/

/-- Whether the text can follow a name in an expression: it is apart from the name, and what is behind
a blank is not the keyword of a guard. -/
def settled : List Char → Bool
  | [] => true
  | c :: cs => !isNameChar c && (c != ' ' || cs.head?.any (· != 'i'))

/-- What may follow a name in an expression does not go on with the name. -/
theorem startsApart_of_settled {cs : List Char} (h : settled cs = true) :
    startsApart cs = true := by
  cases cs with
  | nil => rfl
  | cons c cs =>
    rw [settled, Bool.and_eq_true] at h
    simpa [startsApart] using h.1

/-- What may follow a name may do so with anything behind it. -/
theorem settled_append {a : List Char} (ha : settled a = true) (hne : a ≠ []) (b : List Char) :
    settled (a ++ b) = true := by
  obtain ⟨c, cs, rfl⟩ := List.exists_cons_of_ne_nil hne
  rw [settled, Bool.and_eq_true, Bool.or_eq_true] at ha
  rw [List.cons_append, settled, Bool.and_eq_true, Bool.or_eq_true]
  refine ⟨ha.1, ha.2.imp_right fun hnext => ?_⟩
  cases cs with
  | nil => cases hnext
  | cons d cs => exact hnext

/-- No guard follows a name before such text. -/
theorem not_guard_of_settled {cs : List Char} (h : settled cs = true) :
    " if ".toList.isPrefixOf cs = false := by
  cases cs with
  | nil => rfl
  | cons c cs =>
    rw [settled, Bool.and_eq_true, Bool.or_eq_true] at h
    rcases h.2 with hblank | hnext
    · simp [List.isPrefixOf, Ne.symm (bne_iff_ne.1 hblank)]
    · cases cs with
      | nil => cases hnext
      | cons d cs =>
        have hd : d ≠ 'i' := by simpa using hnext
        simp [List.isPrefixOf, Ne.symm hd]

/-- The text begins like an expression or a statement that declares nothing: with a mark, with a name
that no guard follows, or with a keyword. -/
inductive Begins : List Char → Prop
  | mark {c : Char} {rest : List Char} : isNameChar c = false → c ≠ ' ' → c ≠ '\x7d' → Begins (c :: rest)
  | name {word : String} {rest : List Char} : IsNameText word → settled rest = true →
      Begins (word.toList ++ rest)
  | keyword {word : String} {rest : List Char} : word ∈ Name.keywords → word ≠ "let" → word ≠ "for" →
      startsApart rest = true → Begins (word.toList ++ rest)

/-- Text that is appended does not change how a text begins. -/
theorem Begins.append {a b : List Char} (ha : Begins a) (hb : settled b = true) : Begins (a ++ b) := by
  cases ha with
  | mark hc hblank hclose => exact .mark hc hblank hclose
  | @name word rest hword hrest =>
    rw [List.append_assoc]
    refine .name hword ?_
    cases rest with
    | nil => exact hb
    | cons c rest => exact settled_append hrest (List.cons_ne_nil c rest) b
  | @keyword word rest hmem hlet hfor hrest =>
    rw [List.append_assoc]
    refine .keyword hmem hlet hfor ?_
    cases rest with
    | nil => exact startsApart_of_settled hb
    | cons c rest => exact hrest

/-- A keyword with a blank behind it, other than those of declarations. -/
theorem begins_of_keyword (word : String) (hmem : word ∈ Name.keywords)
    (hplain : word ≠ "let" ∧ word ≠ "for") {cs : List Char} (hstart : word.toList ++ [' '] <+: cs) :
    Begins cs := by
  obtain ⟨rest, rfl⟩ := hstart
  rw [List.append_assoc]
  exact .keyword hmem hplain.1 hplain.2 (by simp [startsApart]; decide)

/-- A word other than those of declarations, with no guard behind it. -/
theorem wordKind_eq {word : String} {rest : List Char} (hlet : word ≠ "let") (hfor : word ≠ "for")
    (hguard : word ∈ Name.keywords ∨ " if ".toList.isPrefixOf rest = false) (isBlock : Bool) :
    wordKind isBlock word rest = if isBlock then .opens else .plain := by
  have hnone : (!Name.keywords.contains word && " if ".toList.isPrefixOf rest) = false := by
    rcases hguard with hmem | hrest
    · rw [List.contains_iff_mem.2 hmem]
      rfl
    · rw [hrest, Bool.and_false]
  rw [wordKind, hnone, beq_false_of_ne hlet, beq_false_of_ne hfor]
  simp only [Bool.false_eq_true, if_false]

/-- The line of an expression or statement that declares nothing. -/
theorem Begins.lineKind_eq {text : String} (h : Begins text.toList) :
    lineKind text = if isBlock text then .opens else .plain := by
  generalize hcs : text.toList = cs at h
  cases h with
  | @mark c rest hc hblank hclose =>
    have hline : text.toList.dropWhile (· == ' ') = text.toList := by
      rw [hcs, List.dropWhile_cons_of_neg (by simp [hblank])]
    have htake : text.toList.takeWhile isNameChar = [] := by
      rw [hcs, List.takeWhile_cons_of_neg (by simp [hc])]
    have hdrop : text.toList.dropWhile isNameChar = text.toList := by
      rw [hcs, List.dropWhile_cons_of_neg (by simp [hc])]
    have hhead : (text.toList.head? == some '\x7d') = false := by simp [hcs, hclose]
    have hguard : " if ".toList.isPrefixOf text.toList = false := by
      simp [hcs, List.isPrefixOf, Ne.symm hblank]
    have hempty : String.ofList [] ≠ "let" ∧ String.ofList [] ≠ "for" := by decide
    rw [← wordKind_eq hempty.1 hempty.2 (.inr hguard)]
    simp only [lineKind, hline, htake, hdrop, hhead, Bool.false_eq_true, if_false, isBlock]
  | @name word rest hword hrest =>
    obtain rfl : text = word ++ String.ofList rest := by simp [← String.toList_inj, hcs]
    rw [lineKind_word hword.ne_nil (List.all_eq_true.2 hword.chars)
      (by simpa using startsApart_of_settled hrest),
      String.toList_ofList]
    exact wordKind_eq (hword.ne_keyword (by decide)) (hword.ne_keyword (by decide))
      (.inr (not_guard_of_settled hrest)) _
  | @keyword word rest hmem hlet hfor hrest =>
    have hall : ∀ w ∈ Name.keywords, w.toList ≠ [] ∧ w.toList.all isNameChar = true := by
      decide +kernel
    obtain rfl : text = word ++ String.ofList rest := by simp [← String.toList_inj, hcs]
    rw [lineKind_word (hall word hmem).1 (hall word hmem).2 (by simpa using hrest)]
    exact wordKind_eq hlet hfor (.inl hmem) _

/-- Whether the text ends, and not like a line that opens a block. -/
def endsPlain (text : String) : Bool :=
  text.toList.getLast?.any (· != '\x7b')

/-- Only the end of a text tells whether it ends plainly. -/
theorem endsPlain_append {b : String} (h : endsPlain b = true) (a : String) :
    endsPlain (a ++ b) = true := by
  obtain ⟨c, hc, hne⟩ := (Option.any_eq_true _ _).1 h
  simpa [endsPlain, hc] using hne

/-- A text that ends plainly opens no block. -/
theorem isBlock_of_endsPlain {text : String} (h : endsPlain text = true) : isBlock text = false := by
  obtain ⟨c, hc, hne⟩ := (Option.any_eq_true _ _).1 h
  simpa [isBlock, hc] using hne

/-! ## Names in scope -/

/-- What a name in the emitted source refers to: a parameter of the function, by its position, or a line
that declares a variable or binds a name for a guard. -/
inductive Binder where
  | parameter (i : Nat)
  | line (i : Nat)
  | guard (i : Nat)
deriving DecidableEq, Repr

namespace LineKind

/-- The scope of what stands in the line with the given number. A variable is not yet in scope on the
line that declares it. -/
def scopeWithin (i : Nat) (s : Scope Binder) : LineKind → Scope Binder
  | .plain | .letVar _ | .opens | .loop _ => s
  | .guard name _ => s.push.declare name (.guard i)
  | .closes | .reopens => s.pop

/-- The scope of what follows the line. -/
def scopeAfter (i : Nat) (s : Scope Binder) : LineKind → Scope Binder
  | .plain | .guard _ false => s
  | .letVar name => s.declare name (.line i)
  | .opens => s.push
  | .loop name => s.push.declare name (.line i)
  | .guard name true => s.push.declare name (.guard i)
  | .closes => s.pop
  | .reopens => s.pop.push

end LineKind

/-- The scope of each line, the first of which has the given number and scope. -/
def scopesFrom (s : Scope Binder) (i : Nat) : List LineKind → List (Scope Binder)
  | [] => []
  | kind :: kinds => kind.scopeWithin i s :: scopesFrom (kind.scopeAfter i s) (i + 1) kinds

/-- The name of a parameter. -/
def parameterName (text : String) : String :=
  declaredName (text.toList.dropWhile (· == '&'))

/-- A parameter that is not a reference to the receiver begins with its name. -/
theorem parameterName_mutText {name : String} (h : IsNameText name) (isMut : Bool) (rest : String)
    (hrest : startsApart rest.toList = true) :
    parameterName (mutText isMut ++ name ++ rest) = name := by
  have hdrop : (mutText isMut ++ name ++ rest).toList.dropWhile (· == '&') =
      (mutText isMut ++ name ++ rest).toList := by
    obtain ⟨c, cs, hname⟩ := List.exists_cons_of_ne_nil h.ne_nil
    have hc : (c == '&') = false := by
      refine beq_false_of_ne ?_
      rintro rfl
      exact absurd (h.chars '&' (hname ▸ List.mem_cons_self)) (by decide)
    cases isMut with
    | true => simp [mutText]
    | false => simp [mutText, hname, hc]
  rw [parameterName, hdrop, String.toList_append]
  exact declaredName_mutText h isMut hrest

/-- The scope of the first line of a function body, by the texts of the parameters. -/
def parameterScope (parameters : List String) : Scope Binder :=
  parameters.zipIdx.foldl (fun s (text, i) => s.declare (parameterName text) (.parameter i)) .empty

/-- The scope of each line of a function body, by the texts of the parameters and of the lines. -/
def lineScopes (parameters lines : List String) : List (Scope Binder) :=
  scopesFrom (parameterScope parameters) 0 (lines.map lineKind)

example : ((lineScopes ["x: f64"] ["    let mut y: f64 = 1;", "    y + x"])[1]?.bind (·.lookup? "y")) =
    some (.line 0) := by
  decide +kernel

end Oxidize.Source
