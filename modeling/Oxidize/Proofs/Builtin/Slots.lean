import Mathlib.Data.List.TakeWhile
import Oxidize.Emit.TypeText
import Oxidize.Proofs.Builtin.Pieces

/-!
# Where templates put arguments

A slot of a template is a group with the pieces on both sides of it. Three things are said of a slot:
what its group shows of the arguments (`Template.shown?`), the names that closures of the template
bind there (`Slot.bound`), and what else stands in the same item, an item being what brackets and
commas delimit (`Slot.lead` and `Slot.trail`).

There are finitely many templates, so one inspection of all of them, `Table.regular`, finds out that
only the closure of a search has an argument in it, and that arguments stand in few ways
(`Template.frames`).
-/

namespace Oxidize

namespace Template

/-! ## Slots -/

/-- A group of a template, with all pieces before and after it. -/
structure Slot where
  before : List Piece
  key : String
  after : List Piece

/-- The slots of a template, in order. -/
def slots : List Piece → List Slot
  | [] => []
  | .char c :: rest => (slots rest).map fun s => { s with before := .char c :: s.before }
  | .group key :: rest =>
    ⟨[], key, rest⟩ :: (slots rest).map fun s => { s with before := .group key :: s.before }

/-- The slots of a template are the ways to split it at a group. -/
theorem mem_slots_iff {pieces : List Piece} {s : Slot} :
    s ∈ slots pieces ↔ pieces = s.before ++ .group s.key :: s.after := by
  constructor
  · intro h
    induction pieces generalizing s with
    | nil => cases h
    | cons piece rest ih =>
      cases piece with
      | char c =>
        obtain ⟨s, hs, rfl⟩ := List.mem_map.1 h
        exact congrArg (Piece.char c :: ·) (ih hs)
      | group key =>
        rcases List.mem_cons.1 h with rfl | h
        · rfl
        · obtain ⟨s, hs, rfl⟩ := List.mem_map.1 h
          exact congrArg (Piece.group key :: ·) (ih hs)
  · obtain ⟨before, key, after⟩ := s
    rintro rfl
    induction before with
    | nil => exact .head _
    | cons piece before ih =>
      cases piece with
      | char c => exact List.mem_map.2 ⟨_, ih, rfl⟩
      | group other => exact .tail _ (List.mem_map.2 ⟨_, ih, rfl⟩)

/-! ## What a group shows -/

/-- What a group shows of the arguments. -/
inductive Shown where
  | arg (i : Nat)
  | size (i : Nat)
  | range
  | list
  | formatted
deriving DecidableEq

/-- What the group with a key shows of the arguments, if anything. -/
def shown? (key : String) : Option Shown :=
  match key with
  | "recv" => none
  | "args" => some .list
  | "fmt" => some .formatted
  | "range" => some .range
  | key =>
    match key.toList.span (· != ':') with
    | (digits, []) => (count? digits).map .arg
    | (digits, suffix) =>
      if suffix = [':', 'u', 's', 'i', 'z', 'e'] then (count? digits).map .size else none

namespace Shown

/-- The text of what is shown. -/
def text (texts : CallTexts) : Shown → String
  | .arg i => texts.args[i]?.getD ""
  | .size i => asUsize (texts.args[i]?.getD "")
  | .range =>
    (texts.args[0]?.map asUsize).getD "" ++ ".." ++ (texts.args[1]?.map asUsize).getD ""
  | .list => String.intercalate ", " texts.args
  | .formatted => formatArgs texts.args texts.argTys

/-- Whether the argument at a position is shown. -/
def shows (i : Nat) : Shown → Bool
  | .arg j | .size j => i == j
  | .range => decide (i < 2)
  | .list | .formatted => true

/-- Whether arguments are cast where they are shown. -/
def isCount : Shown → Bool
  | .size _ | .range => true
  | _ => false

end Shown

/-- A group that shows something of the arguments is replaced by the text of it. -/
theorem groupText_of_shown? {key : String} {shown : Shown} (h : shown? key = some shown)
    (texts : CallTexts) : groupText (placeholder? texts) key = shown.text texts := by
  suffices hplaceholder : placeholder? texts key = some (shown.text texts) by
    rw [groupText, hplaceholder, Option.getD_some]
  by_cases hrecv : key = "recv"
  · subst hrecv
    cases h
  by_cases hargs : key = "args"
  · subst hargs
    cases h
    rfl
  by_cases hfmt : key = "fmt"
  · subst hfmt
    cases h
    rfl
  by_cases hrange : key = "range"
  · subst hrange
    cases h
    rfl
  -- any other key is a position, perhaps with the mark of a count behind it
  rcases hspan : key.toList.span (· != ':') with ⟨digits, suffix⟩
  cases suffix with
  | nil =>
    simp only [shown?, hspan] at h
    obtain ⟨i, hi, rfl⟩ := Option.map_eq_some_iff.1 h
    simp only [placeholder?, hspan, hi, Option.map_some, Shown.text]
  | cons c suffix =>
    simp only [shown?, hspan] at h
    split at h
    · next hsuffix =>
      obtain ⟨i, hi, rfl⟩ := Option.map_eq_some_iff.1 h
      simp only [placeholder?, hspan, hsuffix, if_true, hi, Option.map_some, Shown.text]
    · cases h

/-! ## Names bound at a slot -/

/-- What has been seen of a template. -/
structure Scope where
  /-- The names bound inside each bracket that is open, innermost first. -/
  frames : List (List String)
  /-- The text since the bar that opens a list of parameters, latest character first. -/
  params : Option (List Char)

namespace Scope

/-- Nothing has been seen. -/
def start : Scope :=
  ⟨[[]], none⟩

/-- The names in a list of parameters. -/
def paramNames (text : List Char) : List String :=
  ((text.filter (· != ' ')).splitOn ',').map String.ofList

end Scope

/-- A bracket that opens. -/
def isOpen (c : Char) : Bool :=
  c == '(' || c == '['

/-- A bracket that closes. -/
def isClose (c : Char) : Bool :=
  c == ')' || c == ']'

/-- One more piece. What a closure binds ends with the bracket it stands in, or at a comma. -/
def Scope.step (s : Scope) : Piece → Scope
  | .group _ => s
  | .char c =>
    match s.params, s.frames with
    | some text, frames =>
      if c == '|' then ⟨frames.modifyHead (paramNames text.reverse ++ ·), none⟩
      else ⟨frames, some (c :: text)⟩
    | none, frames =>
      if c == '|' then ⟨frames, some []⟩
      else if isOpen c then ⟨[] :: frames, none⟩
      else if isClose c then ⟨frames.tail, none⟩
      else if c == ',' then ⟨frames.modifyHead fun _ => [], none⟩
      else s

/-- The names that closures of the template bind at a slot. -/
def Slot.bound (s : Slot) : List String :=
  (s.before.foldl Scope.step .start).frames.flatten

/-! ## Items -/

/-- The pieces up to a comma or a bracket without a partner among them. -/
def itemPart (opens closes : Char → Bool) : Nat → List Piece → List Piece
  | _, [] => []
  | depth, .group key :: rest => .group key :: itemPart opens closes depth rest
  | depth, .char c :: rest =>
    if opens c then .char c :: itemPart opens closes (depth + 1) rest
    else if closes c then
      match depth with
      | 0 => []
      | depth + 1 => .char c :: itemPart opens closes depth rest
    else if depth = 0 ∧ c = ',' then []
    else .char c :: itemPart opens closes depth rest

/-- An item ends at a comma or a bracket without a partner, or with the template. -/
theorem itemPart_append (opens closes : Char → Bool) (depth : Nat) (pieces : List Piece) :
    ∃ rest, pieces = itemPart opens closes depth pieces ++ rest ∧
      ∀ piece ∈ rest.head?, ∃ c, piece = .char c ∧ (closes c = true ∨ c = ',') := by
  induction pieces generalizing depth with
  | nil => exact ⟨[], rfl, nofun⟩
  | cons piece pieces ih =>
    -- a piece that is kept goes on with the rest, at whatever depth
    have kept : ∀ depth, ∃ rest, piece :: pieces = piece :: itemPart opens closes depth pieces ++ rest ∧
        ∀ piece ∈ rest.head?, ∃ c, piece = .char c ∧ (closes c = true ∨ c = ',') := by
      intro depth
      obtain ⟨rest, heq, hrest⟩ := ih depth
      exact ⟨rest, by rw [List.cons_append, ← heq], hrest⟩
    cases piece with
    | group key => exact kept depth
    | char c =>
      unfold itemPart
      split
      · exact kept _
      · split
        · next hclose =>
          split
          · exact ⟨_, rfl, by rintro _ ⟨⟩; exact ⟨c, rfl, .inl hclose⟩⟩
          · exact kept _
        · split
          · next hcomma => exact ⟨_, rfl, by rintro _ ⟨⟩; exact ⟨c, rfl, .inr hcomma.2⟩⟩
          · exact kept depth

/-- A letter of the template. -/
def Piece.isLetter : Piece → Bool
  | .char c => c.isAlpha
  | .group _ => false

/-- An item without the name in front of a named argument. -/
def withoutLabel (item : List Piece) : List Piece :=
  match item.dropWhile Piece.isLetter with
  | .char ' ' :: .char '=' :: .char ' ' :: rest => rest
  | _ => item

/-- An item may have a name in front that ends with an equals sign. -/
theorem withoutLabel_cases (item : List Piece) :
    withoutLabel item = item ∨
      ∃ label, item = label ++ [' ', '=', ' '].map .char ++ withoutLabel item := by
  unfold withoutLabel
  split
  · next rest heq =>
    refine .inr ⟨item.takeWhile Piece.isLetter, ?_⟩
    have hitem := (List.takeWhile_append_dropWhile (p := Piece.isLetter) (l := item)).symm
    rw [heq] at hitem
    simpa using hitem
  · exact .inl rfl

/-- The pieces in front of a slot that belong to its item. -/
def Slot.lead (s : Slot) : List Piece :=
  withoutLabel ((itemPart isClose isOpen 0 s.before.reverse).reverse.dropWhile (· == .char ' '))

/-- The pieces behind a slot that belong to its item. -/
def Slot.trail (s : Slot) : List Piece :=
  itemPart isOpen isClose 0 s.after

/-- An item starts after the text: there is none, or up to blanks it ends with a bracket, a comma,
the points of a range, or the sign behind the name of an argument. -/
def Opens (left : List Char) : Prop :=
  ∃ l blanks, left = l ++ blanks ∧ (∀ c ∈ blanks, c = ' ') ∧
    (l = [] ∨ ∃ sep ∈ [['('], ['['], [','], ['.', '.'], [' ', '=']], sep <:+ l)

/-- An item ends before the text: there is none, or it starts with a bracket, a comma or the points of
a range. -/
def Closes (right : List Char) : Prop :=
  right = [] ∨ ∃ sep ∈ [[')'], [']'], [','], ['.', '.']], sep <+: right

/-- Blanks after the start of an item do not end it. -/
theorem Opens.blanks {left : List Char} (h : Opens left) (blanks : List Char)
    (hblanks : ∀ c ∈ blanks, c = ' ') : Opens (left ++ blanks) := by
  obtain ⟨l, blanks', rfl, hblanks', hl⟩ := h
  exact ⟨l, blanks' ++ blanks, List.append_assoc .., List.forall_mem_append.2 ⟨hblanks', hblanks⟩, hl⟩

/-- A separator opens an item. -/
theorem opens_append (left sep : List Char)
    (h : sep ∈ [['('], ['['], [','], ['.', '.'], [' ', '=']]) : Opens (left ++ sep) :=
  ⟨left ++ sep, [], by simp, nofun, .inr ⟨sep, h, List.suffix_append ..⟩⟩

/-- A separator closes an item. -/
theorem closes_append (sep right : List Char) (h : sep ∈ [[')'], [']'], [','], ['.', '.']]) :
    Closes (sep ++ right) :=
  .inr ⟨sep, h, List.prefix_append ..⟩

section
variable (replace : String → Option String)

/-- The text of pieces. -/
def textOf (pieces : List Piece) : List Char :=
  pieces.flatMap (Piece.expand replace)

/-- The text of pieces in a row. -/
theorem textOf_append (a b : List Piece) :
    textOf replace (a ++ b) = textOf replace a ++ textOf replace b :=
  List.flatMap_append

/-- Characters of a template are their own text. -/
theorem textOf_map_char (cs : List Char) : textOf replace (cs.map .char) = cs :=
  flatMap_expand_map_char replace cs

/-- An item opens after a bracket or a comma, read backwards. -/
theorem opens_reverse {rest : List Piece}
    (h : ∀ piece ∈ rest.head?, ∃ c, piece = .char c ∧ (isOpen c = true ∨ c = ',')) :
    Opens (textOf replace rest.reverse) := by
  cases rest with
  | nil => exact ⟨[], [], rfl, nofun, .inl rfl⟩
  | cons piece rest =>
    obtain ⟨c, rfl, hc⟩ := h piece rfl
    rw [List.reverse_cons, textOf_append]
    refine opens_append _ [c] ?_
    simp only [isOpen, Bool.or_eq_true, beq_iff_eq] at hc
    rcases hc with (rfl | rfl) | rfl <;> decide

/-- The text of blanks is blanks. -/
theorem textOf_blanks {pieces : List Piece} (h : ∀ piece ∈ pieces, piece = .char ' ') :
    ∀ c ∈ textOf replace pieces, c = ' ' := by
  intro c hc
  obtain ⟨piece, hpiece, hc⟩ := List.mem_flatMap.1 hc
  rw [h piece hpiece] at hc
  exact List.mem_singleton.1 hc

/-- In front of what leads to a slot, an item starts. -/
theorem Slot.before_eq (s : Slot) :
    ∃ left, s.before = left ++ s.lead ∧ Opens (textOf replace left) := by
  obtain ⟨rest, heq, hrest⟩ := itemPart_append isClose isOpen 0 s.before.reverse
  rw [List.reverse_eq_iff, List.reverse_append] at heq
  have hopens := opens_reverse replace hrest
  unfold lead
  generalize (itemPart isClose isOpen 0 s.before.reverse).reverse = item at heq ⊢
  -- between the start of the item and the slot there may be blanks and a label
  have hblanks : ∀ piece ∈ item.takeWhile (· == .char ' '), piece = .char ' ' :=
    fun piece h => beq_iff_eq.1 (List.mem_takeWhile_imp (p := (· == Piece.char ' ')) h)
  have hstart := hopens.blanks _ (textOf_blanks replace hblanks)
  rw [← textOf_append] at hstart
  have hitem := (List.takeWhile_append_dropWhile (p := (· == Piece.char ' ')) (l := item)).symm
  rcases withoutLabel_cases (item.dropWhile (· == .char ' ')) with hlabel | ⟨label, hlabel⟩
  · refine ⟨_, ?_, hstart⟩
    rw [hlabel, List.append_assoc, ← hitem]
    exact heq
  · refine ⟨rest.reverse ++ item.takeWhile (· == .char ' ') ++ (label ++ [' ', '=', ' '].map .char),
      ?_, ?_⟩
    · rw [List.append_assoc, ← hlabel, List.append_assoc, ← hitem]
      exact heq
    · rw [textOf_append, textOf_append replace label, textOf_map_char, ← List.append_assoc]
      have hsign := opens_append
        (textOf replace (rest.reverse ++ item.takeWhile (· == .char ' ')) ++ textOf replace label)
        [' ', '='] (by decide)
      simpa using hsign.blanks [' '] (by simp)

/-- Behind what follows a slot, its item ends. -/
theorem Slot.after_eq (s : Slot) :
    ∃ right, s.after = s.trail ++ right ∧ Closes (textOf replace right) := by
  obtain ⟨rest, heq, hrest⟩ := itemPart_append isOpen isClose 0 s.after
  refine ⟨rest, heq, ?_⟩
  cases rest with
  | nil => exact .inl rfl
  | cons piece rest =>
    obtain ⟨c, rfl, hc⟩ := hrest piece rfl
    refine closes_append [c] (textOf replace rest) ?_
    simp only [isClose, Bool.or_eq_true, beq_iff_eq] at hc
    rcases hc with (rfl | rfl) | rfl <;> decide

end

/-! ## All templates -/

/-- What stands around an argument in its item. -/
inductive Frame where
  | alone
  | cast (target : Prim)
  | borrow
  | view
  | search
  | members (suffix : String)
deriving DecidableEq

namespace Frame

/-- The text in front of the argument. -/
def before : Frame → List Char
  | .borrow => ['&']
  | .view => ['&', '*']
  | .search => ['|', 'e', '|', ' ', '*', 'e', ' ', '=', '=', ' ']
  | .alone | .cast _ | .members _ => []

/-- The text behind the argument. -/
def after : Frame → List Char
  | .cast target => ' ' :: 'a' :: 's' :: ' ' :: (target.text .loc).toList
  | .members suffix => suffix.toList
  | .alone | .borrow | .view | .search => []

end Frame

/-- The ways in which templates put arguments. -/
def frames : List Frame :=
  [.alone, .cast .f64, .cast .u32, .cast .i32, .borrow, .view, .search, .members ".as_slice()",
    .members ".iter().cloned().collect::<Vec<_>>()"]

/-- The item of a slot has nothing else in it than the text of the frame. -/
def Slot.InFrame (s : Slot) (frame : Frame) : Prop :=
  s.lead = frame.before.map .char ∧ s.trail = frame.after.map .char

instance (s : Slot) (frame : Frame) : Decidable (s.InFrame frame) :=
  inferInstanceAs (Decidable (_ ∧ _))

/-- The slot for what a sequence is searched for. -/
def Slot.IsSearch (s : Slot) (table : Table) (rule : Rule) : Prop :=
  table = .sequence ∧ rule.name = "indexOf" ∧ s.key = "0"

instance (s : Slot) (table : Table) (rule : Rule) : Decidable (s.IsSearch table rule) :=
  inferInstanceAs (Decidable (_ ∧ _))

/-- The frames for what is shown: only an argument as it is may have text around it. -/
def Shown.frames : Shown → List Frame
  | .arg _ => Template.frames
  | .size _ | .range | .list | .formatted => [.alone]

/-- What is shown stands in one of the frames of templates. -/
theorem Shown.frames_subset (shown : Shown) : shown.frames ⊆ Template.frames := by
  cases shown with
  | arg => exact List.Subset.refl _
  | size | range | list | formatted => exact List.cons_subset.2 ⟨.head _, List.nil_subset _⟩

/-- The frames of arguments that are converted to the type of an element. -/
def elementFrames : List Frame :=
  [.alone, .borrow, .search]

/-- What a slot shows is an argument as it is, in a frame for those that are converted. -/
def Slot.TakesElement (s : Slot) : Prop :=
  ∀ shown ∈ shown? s.key, shown.isCount = false ∧ ∀ frame ∈ frames, s.InFrame frame →
    frame ∈ elementFrames

instance (s : Slot) : Decidable s.TakesElement :=
  inferInstanceAs (Decidable (∀ shown ∈ shown? s.key, _))

/-- What a slot shows stands in a frame. -/
def Slot.Framed (s : Slot) : Prop :=
  ∀ shown ∈ shown? s.key, ∃ frame ∈ shown.frames, s.InFrame frame

instance (s : Slot) : Decidable s.Framed :=
  inferInstanceAs (Decidable (∀ shown ∈ shown? s.key, _))

/-- What all templates have in common. -/
structure Regular (table : Table) (rule : Rule) (pieces : List Piece) : Prop where
  bracket : .char '(' ∈ pieces ∨ .char '[' ∈ pieces
  bound : ∀ s ∈ slots pieces, s.bound = if s.IsSearch table rule then ["e"] else []
  framed : ∀ s ∈ slots pieces, s.Framed
  element : rule.elementArgs = true → ∀ s ∈ slots pieces, s.TakesElement

instance (table : Table) (rule : Rule) (pieces : List Piece) :
    Decidable (Regular table rule pieces) :=
  decidable_of_iff ((.char '(' ∈ pieces ∨ .char '[' ∈ pieces) ∧
      (∀ s ∈ slots pieces, s.bound = if s.IsSearch table rule then ["e"] else []) ∧
      (∀ s ∈ slots pieces, s.Framed) ∧
      (rule.elementArgs = true → ∀ s ∈ slots pieces, s.TakesElement))
    ⟨fun h => ⟨h.1, h.2.1, h.2.2.1, h.2.2.2⟩, fun h => ⟨h.bracket, h.bound, h.framed, h.element⟩⟩

end Template

/-- The templates of all builtins are regular. -/
theorem Table.regular (table : Table) :
    ∀ rule ∈ table.rules, Template.Regular table rule (Template.pieces rule.template) := by
  rcases table with _ | _ | (_ | _ | _ | _ | _)
  all_goals
    simp only [Table.rules, Table.sequenceRules, Table.textRules, Table.consoleRules,
      Table.arrayRules, Table.stringRules, Table.mathRules, Table.processRules,
      List.forall_mem_cons]
    repeat' apply And.intro
  all_goals first
    | exact Template.of_ofList rfl (by decide +kernel)
    | nofun

namespace Template

/-! ## Texts of slots -/

/-- Texts before and after an item that is part of a larger one. -/
structure Delimits (left right : List Char) : Prop where
  opens : ∀ {more}, Opens more → Opens (more ++ left)
  closes : ∀ {more}, Closes more → Closes (right ++ more)

/-- Nothing around an item delimits it. -/
theorem delimits_nil : Delimits [] [] where
  opens h := by rwa [List.append_nil]
  closes h := h

/-- A comma and a blank open an item. -/
theorem opens_comma (left : List Char) : Opens (left ++ ", ".toList) := by
  simpa using (opens_append left [','] (by decide)).blanks [' '] (by simp)

/-- In a list with commas every text is an item. -/
theorem exists_intercalate {codes : List String} {i : Nat} {code : String}
    (h : codes[i]? = some code) :
    ∃ l r, (String.intercalate ", " codes).toList = l ++ code.toList ++ r ∧ Delimits l r := by
  induction codes generalizing i with
  | nil => cases h
  | cons head codes ih =>
    cases codes with
    | nil =>
      cases i with
      | zero =>
        cases h
        exact ⟨[], [], by simp [String.intercalate_singleton], delimits_nil⟩
      | succ i => cases h
    | cons next codes =>
      rw [String.intercalate_cons_cons, String.toList_append, String.toList_append]
      cases i with
      | zero =>
        cases h
        refine ⟨[], _, by rw [List.nil_append, List.append_assoc], ?_⟩
        exact ⟨fun h => by rwa [List.append_nil], fun _ => closes_append [','] _ (by decide)⟩
      | succ i =>
        obtain ⟨l, r, heq, hopens, hcloses⟩ := ih h
        refine ⟨head.toList ++ ", ".toList ++ l, r, by simp [heq], fun {more} _ => ?_, hcloses⟩
        rw [← List.append_assoc, ← List.append_assoc]
        exact hopens (opens_comma _)

namespace Shown

/-- The text of an argument where it is shown. -/
def argText (shown : Shown) (code : String) : String :=
  if shown.isCount then asUsize code else code

/-- An argument that is shown as it is has its text. -/
theorem text_arg {i : Nat} {texts : CallTexts} {code : String} (hcode : texts.args[i]? = some code) :
    (arg i).text texts = (arg i).argText code := by
  simp [text, argText, isCount, hcode]

/-- What is shown of an argument is an item, or several with it as one of them. -/
theorem text_eq {shown : Shown} {i : Nat} (hshows : shown.shows i = true) {texts : CallTexts}
    {code : String} (hcode : texts.args[i]? = some code) :
    ∃ l r, (shown.text texts).toList = l ++ (shown.argText code).toList ++ r ∧ Delimits l r := by
  cases shown with
  | arg j =>
    obtain rfl : i = j := beq_iff_eq.1 hshows
    exact ⟨[], [], by simp [text_arg hcode], delimits_nil⟩
  | size j =>
    obtain rfl : i = j := beq_iff_eq.1 hshows
    exact ⟨[], [], by simp [text, argText, isCount, hcode], delimits_nil⟩
  | range =>
    have hi : i < 2 := of_decide_eq_true hshows
    obtain rfl | rfl : i = 0 ∨ i = 1 := by omega
    · refine ⟨[], "..".toList ++ ((texts.args[1]?.map asUsize).getD "").toList, ?_, ?_⟩
      · simp [text, argText, isCount, hcode]
      · exact ⟨delimits_nil.opens, fun _ => closes_append ['.', '.'] _ (by decide)⟩
    · refine ⟨((texts.args[0]?.map asUsize).getD "").toList ++ "..".toList, [], ?_, ?_⟩
      · simp [text, argText, isCount, hcode]
      · refine ⟨fun {more} _ => ?_, delimits_nil.closes⟩
        rw [← List.append_assoc]
        exact opens_append _ ['.', '.'] (by decide)
  | list => exact exists_intercalate hcode
  | formatted =>
    obtain ⟨l, r, heq, h⟩ := exists_intercalate hcode
    have hne : texts.args.isEmpty = false := by
      rw [List.isEmpty_eq_false_iff]
      intro hnil
      rw [hnil] at hcode
      cases hcode
    refine ⟨("\"" ++ String.intercalate " " (formatGroups texts.args texts.argTys) ++ "\"").toList ++
      ", ".toList ++ l, r, ?_, ?_⟩
    · simp [text, formatArgs, hne, argText, isCount, heq]
    · refine ⟨fun {more} _ => ?_, h.closes⟩
      rw [← List.append_assoc, ← List.append_assoc]
      exact h.opens (opens_comma _)

end Shown

variable {table : Table} {rule : Rule} {s : Slot} {shown : Shown} {i : Nat} {code : String}
  {texts : CallTexts}

/-- The text of a call around the group of one slot. -/
theorem Slot.expand_eq {template : String} (hs : s ∈ slots (pieces template)) (texts : CallTexts) :
    (expand template texts).toList = textOf (placeholder? texts) s.before ++
      (groupText (placeholder? texts) s.key).toList ++ textOf (placeholder? texts) s.after := by
  rw [toList_expand, mem_slots_iff.1 hs, List.append_assoc]
  exact List.flatMap_append

/-- The text stands at the slot of a call, in a frame that makes it an item. -/
structure Slot.Puts (s : Slot) (frame : Frame) (rule : Rule) (texts : CallTexts) (text : String) :
    Prop where
  inFrame : s.InFrame frame
  item : ∃ left right, (rule.render texts).toList =
      left ++ (frame.before ++ text.toList ++ frame.after) ++ right ∧ Opens left ∧ Closes right ∧
    textOf (placeholder? texts) s.before <+: left ++ frame.before ∧
    textOf (placeholder? texts) s.after <:+ frame.after ++ right

/-- What a slot shows of an argument stands in a frame. -/
theorem Slot.exists_puts (hrule : rule ∈ table.rules) (hs : s ∈ slots (pieces rule.template))
    (hshown : shown? s.key = some shown) (hshows : shown.shows i = true)
    (hcode : texts.args[i]? = some code) :
    ∃ frame ∈ shown.frames, s.Puts frame rule texts (shown.argText code) := by
  obtain ⟨frame, hframe, hin⟩ := (table.regular rule hrule).framed s hs shown hshown
  refine ⟨frame, hframe, hin, ?_⟩
  obtain ⟨left, hbefore, hopens⟩ := s.before_eq (placeholder? texts)
  obtain ⟨right, hafter, hcloses⟩ := s.after_eq (placeholder? texts)
  rw [Rule.render, s.expand_eq hs, groupText_of_shown? hshown, hbefore, hafter, hin.1, hin.2,
    textOf_append, textOf_append, textOf_map_char, textOf_map_char]
  by_cases harg : ∃ j, shown = .arg j
  · obtain ⟨j, rfl⟩ := harg
    obtain rfl : i = j := beq_iff_eq.1 hshows
    refine ⟨_, _, ?_, hopens, hcloses, List.prefix_rfl, List.suffix_rfl⟩
    rw [Shown.text_arg hcode]
    simp only [List.append_assoc]
  · obtain rfl : frame = .alone := by
      cases shown with
      | arg j => exact absurd ⟨j, rfl⟩ harg
      | size | range | list | formatted => exact List.mem_singleton.1 hframe
    obtain ⟨l, r, heq, hdelim⟩ := Shown.text_eq hshows hcode
    refine ⟨_, _, ?_, hdelim.opens hopens, hdelim.closes hcloses, ?_, ?_⟩
    · rw [heq]
      simp only [Frame.before, Frame.after, List.append_assoc, List.nil_append]
    · simp [Frame.before]
    · simp [Frame.after]

end Template

end Oxidize
