import Mathlib.Data.List.Infix
import Mathlib.Data.List.TakeWhile
import Oxidize.Proofs.Builtin.Pieces

/-!
# Templates put together

Whether a group is a placeholder is a matter of its key (`Template.isSome_placeholder?_iff`), and no
key of a placeholder has a brace in it. After a template whose groups all close
(`Template.GroupsClose`) no group is open, so what follows has the pieces that it has alone
(`Template.pieces_append`); the texts of a call come in only where pieces become text and are never
read for groups. A template that leaves a group open takes in what follows, up to the next brace that
closes. A group that was to start there is then part of the open one, whose key has a brace in it, and
both are kept (`Template.expand_braced_of_not_groupsClose`).
-/

namespace Oxidize

/-! ## Counts -/

/-- Digits of a number of at most 64 bits. -/
structure IsNumeral (digits : List Char) : Prop where
  ne_nil : digits ≠ []
  isDigit : ∀ c ∈ digits, c.isDigit = true
  lt : Nat.ofDigitChars 10 digits 0 < Nat.pow 2 64

/-- A count as it is written, perhaps with a plus sign. -/
inductive IsCount : List Char → Prop
  | plain {digits : List Char} (h : IsNumeral digits) : IsCount digits
  | signed {digits : List Char} (h : IsNumeral digits) : IsCount ('+' :: digits)

/-- A count with a sign is read exactly if numerals follow the sign. -/
theorem isSome_count?_signed {digits : List Char} :
    (count? ('+' :: digits)).isSome = true ↔ IsNumeral digits := by
  have hvalue : digits.foldl (fun n c => n * 10 + (c.toNat - '0'.toNat)) 0 =
      Nat.ofDigitChars 10 digits 0 := by
    simp only [Nat.ofDigitChars, Nat.mul_comm 10]
  simp only [count?, hvalue]
  constructor
  · intro h
    split at h
    · cases h
    · next hdigits =>
      simp only [Bool.or_eq_true, Bool.not_eq_true', not_or, List.isEmpty_iff, Bool.not_eq_false,
        List.all_eq_true] at hdigits
      split at h
      · next hlt => exact ⟨hdigits.1, hdigits.2, hlt⟩
      · cases h
  · rintro ⟨hne, hdigits, hlt⟩
    rw [if_neg (by simpa using ⟨hne, hdigits⟩), if_pos hlt]
    rfl

/-- A text is read as a count exactly if it is one. -/
theorem isSome_count?_iff {text : List Char} : (count? text).isSome = true ↔ IsCount text := by
  by_cases hplus : ∃ digits, text = '+' :: digits
  · obtain ⟨digits, rfl⟩ := hplus
    rw [isSome_count?_signed]
    constructor
    · exact .signed
    · intro h
      cases h with
      | plain h => exact absurd (h.isDigit '+' (.head _)) (by decide)
      | signed h => exact h
  · -- without a sign the text is read as it is with one
    have hsigned : count? text = count? ('+' :: text) := by
      unfold count?
      split
      · exact absurd ⟨_, rfl⟩ hplus
      · rfl
    rw [hsigned, isSome_count?_signed]
    constructor
    · exact .plain
    · intro h
      cases h with
      | plain h => exact h
      | signed h => exact absurd ⟨_, rfl⟩ hplus

/-- A count has a plus sign and digits and no other characters. -/
theorem IsCount.not_mem {text : List Char} (h : IsCount text) {c : Char} (hplus : c ≠ '+')
    (hdigit : c.isDigit = false) : c ∉ text := by
  have hnumeral : ∀ {digits : List Char}, IsNumeral digits → c ∉ digits := by
    intro digits h hc
    rw [h.isDigit c hc] at hdigit
    cases hdigit
  cases h with
  | plain h => exact hnumeral h
  | signed h =>
    rw [List.mem_cons, not_or]
    exact ⟨hplus, hnumeral h⟩

namespace Template

/-! ## Placeholders -/

/-- The keys of placeholders. -/
inductive IsPlaceholder : String → Prop
  | receiver : IsPlaceholder "recv"
  | arguments : IsPlaceholder "args"
  | formatted : IsPlaceholder "fmt"
  | range : IsPlaceholder "range"
  | argument {digits : List Char} (h : IsCount digits) : IsPlaceholder (String.ofList digits)
  | size {digits : List Char} (h : IsCount digits) : IsPlaceholder (String.ofList digits ++ ":usize")

/-- A count ends at the colon of what follows it. -/
theorem span_count {digits suffix : List Char} (h : IsCount digits)
    (hsuffix : ∀ c ∈ suffix.head?, c = ':') :
    (digits ++ suffix).span (· != ':') = (digits, suffix) := by
  have hdigits : ∀ c ∈ digits, (c != ':') = true := by
    intro c hc
    rw [bne_iff_ne]
    rintro rfl
    exact h.not_mem (by decide) (by decide) hc
  rw [List.span_eq_takeWhile_dropWhile, List.takeWhile_append_of_pos hdigits,
    List.dropWhile_append_of_pos hdigits]
  cases suffix with
  | nil => simp
  | cons c suffix =>
    obtain rfl : c = ':' := hsuffix c rfl
    simp

/-- Whether a group is a placeholder does not depend on the call. -/
theorem isSome_placeholder?_iff (texts : CallTexts) {key : String} :
    (placeholder? texts key).isSome = true ↔ IsPlaceholder key := by
  constructor
  · intro h
    unfold placeholder? at h
    split at h
    · exact .receiver
    · exact .arguments
    · exact .formatted
    · exact .range
    · have hkey : key.toList = (key.toList.span (· != ':')).1 ++ (key.toList.span (· != ':')).2 := by
        rw [List.span_eq_takeWhile_dropWhile, List.takeWhile_append_dropWhile]
      rw [← String.ofList_toList (s := key)]
      split at h
      · next digits hspan =>
        rw [Option.isSome_map, isSome_count?_iff] at h
        rw [hkey, hspan, List.append_nil]
        exact .argument h
      · next digits suffix _ hspan =>
        split at h
        · next hsuffix =>
          rw [Option.isSome_map, isSome_count?_iff] at h
          rw [hkey, hspan, hsuffix, String.ofList_append]
          exact .size h
        · cases h
  · intro h
    cases h with
    | receiver | arguments | formatted | range => rfl
    | @argument digits h =>
      have hspan : (String.ofList digits).toList.span (· != ':') = (digits, []) := by
        simpa using span_count h (by simp : ∀ c ∈ ([] : List Char).head?, c = ':')
      unfold placeholder?
      split
      any_goals rfl
      simp only [hspan, Option.isSome_map]
      exact isSome_count?_iff.2 h
    | @size digits h =>
      have hspan : (String.ofList digits ++ ":usize").toList.span (· != ':') =
          (digits, [':', 'u', 's', 'i', 'z', 'e']) := by
        rw [String.toList_append, String.toList_ofList]
        exact span_count h (by simp)
      unfold placeholder?
      split
      any_goals rfl
      simp only [hspan, if_true, Option.isSome_map]
      exact isSome_count?_iff.2 h

instance : DecidablePred IsPlaceholder := fun _ =>
  decidable_of_iff _ (isSome_placeholder?_iff ⟨none, [], []⟩)

/-- The key of a placeholder has no brace. -/
theorem IsPlaceholder.not_mem {key : String} (h : IsPlaceholder key) {c : Char}
    (hc : c = '\x7b' ∨ c = '\x7d') : c ∉ key.toList := by
  have hname : ∀ name ∈ ["recv", "args", "fmt", "range", ":usize"], c ∉ name.toList := by
    rcases hc with rfl | rfl <;> decide +kernel
  have hcount : ∀ {digits}, IsCount digits → c ∉ digits := by
    intro digits h
    rcases hc with rfl | rfl <;> exact h.not_mem (by decide) (by decide)
  cases h with
  | receiver | arguments | formatted | range => exact hname _ (by simp)
  | argument h =>
    rw [String.toList_ofList]
    exact hcount h
  | size h =>
    rw [String.toList_append, String.toList_ofList, List.mem_append, not_or]
    exact ⟨hcount h, hname _ (by simp)⟩

/-! ## Groups that close -/

/-- Every brace that opens is followed by one that closes. -/
def GroupsClose (cs : List Char) : Prop :=
  ∀ rest, '\x7b' :: rest <:+ cs → '\x7d' ∈ rest

instance : DecidablePred GroupsClose := fun cs =>
  decidable_of_iff (∀ s ∈ cs.tails, s.head? = some '\x7b' → '\x7d' ∈ s.tail) <| by
    constructor
    · intro h rest hrest
      exact h _ ((List.mem_tails _ _).2 hrest) rfl
    · intro h s hs hhead
      obtain ⟨rest, rfl⟩ := List.head?_eq_some_iff.1 hhead
      exact h _ ((List.mem_tails _ _).1 hs)

section
variable {c : Char} {cs ds key : List Char}

/-- The groups of a text close if its first one does and those of the rest do. -/
theorem groupsClose_cons_iff :
    GroupsClose (c :: cs) ↔ (c = '\x7b' → '\x7d' ∈ cs) ∧ GroupsClose cs := by
  constructor
  · intro h
    refine ⟨?_, fun rest hrest => h rest (hrest.trans (List.suffix_cons ..))⟩
    rintro rfl
    exact h cs List.suffix_rfl
  · rintro ⟨hc, h⟩ rest hrest
    rcases List.suffix_cons_iff.1 hrest with heq | hrest
    · cases heq
      exact hc rfl
    · exact h rest hrest

/-- The first brace without one that closes it splits a template that leaves a group open. -/
theorem exists_open_of_not_groupsClose (h : ¬GroupsClose cs) :
    ∃ before opened, cs = before ++ '\x7b' :: opened ∧ GroupsClose before ∧ '\x7d' ∉ opened := by
  induction cs with
  | nil => exact absurd (by decide) h
  | cons c cs ih =>
    by_cases hcs : GroupsClose cs
    · rw [groupsClose_cons_iff] at h
      obtain ⟨rfl, hopened⟩ : c = '\x7b' ∧ '\x7d' ∉ cs := by
        simpa [hcs] using h
      exact ⟨[], cs, rfl, by decide, hopened⟩
    · obtain ⟨before, opened, rfl, hbefore, hopened⟩ := ih hcs
      -- the brace found in the rest is the first one unless nothing closes `c`
      by_cases hc : c = '\x7b' ∧ '\x7d' ∉ before
      · obtain ⟨rfl, hnot⟩ := hc
        refine ⟨[], before ++ '\x7b' :: opened, rfl, by decide, ?_⟩
        simp [hnot, hopened]
      · refine ⟨c :: before, opened, rfl, groupsClose_cons_iff.2 ⟨?_, hbefore⟩, hopened⟩
        simpa using hc

/-- Where every group closes, also one that is open at the start, the rest is read on its own. -/
theorem piecesFrom_append {group : Option (List Char)} (hgroup : group.isSome = true → '\x7d' ∈ cs)
    (h : GroupsClose cs) :
    piecesFrom group (cs ++ ds) = piecesFrom group cs ++ piecesFrom none ds := by
  induction cs generalizing group with
  | nil =>
    cases group with
    | none => rfl
    | some key => cases hgroup rfl
  | cons c cs ih =>
    obtain ⟨hc, h⟩ := groupsClose_cons_iff.1 h
    rw [List.cons_append]
    cases group with
    | none =>
      simp only [piecesFrom]
      split
      · next heq => exact ih (fun _ => hc heq) h
      · rw [ih (by simp) h, List.cons_append]
    | some key =>
      simp only [piecesFrom]
      split
      · rw [ih (by simp) h, List.cons_append]
      · next hne =>
        refine ih (fun _ => ?_) h
        exact (List.mem_cons.1 (hgroup rfl)).resolve_left (Ne.symm hne)

/-- What does not close a group is added to its text. -/
theorem piecesFrom_some_append (hcs : '\x7d' ∉ cs) :
    piecesFrom (some key) (cs ++ ds) = piecesFrom (some (cs.reverse ++ key)) ds := by
  induction cs generalizing key with
  | nil => rfl
  | cons c cs ih =>
    obtain ⟨hc, hcs⟩ := not_or.1 (mt List.mem_cons.2 hcs)
    rw [List.cons_append, piecesFrom, if_neg (Ne.symm hc), ih hcs]
    simp

/-- A group is read up to the first brace that closes it. -/
theorem piecesFrom_group (hcs : '\x7d' ∉ cs) :
    piecesFrom none ('\x7b' :: (cs ++ '\x7d' :: ds)) =
      .group (String.ofList cs) :: piecesFrom none ds := by
  rw [piecesFrom, if_pos rfl, piecesFrom_some_append hcs, piecesFrom, if_pos rfl]
  simp

/-- A brace that nothing closes is read as text. -/
theorem piecesFrom_open (hcs : '\x7d' ∉ cs) :
    piecesFrom none ('\x7b' :: cs) = ('\x7b' :: cs).map .char := by
  have hopened : piecesFrom (some []) (cs ++ []) = _ := piecesFrom_some_append hcs
  rw [List.append_nil] at hopened
  rw [piecesFrom, if_pos rfl, hopened, piecesFrom]
  simp

/-- A text without braces that open is read as it is. -/
theorem piecesFrom_plain (hcs : '\x7b' ∉ cs) : piecesFrom none cs = cs.map .char := by
  induction cs with
  | nil => rfl
  | cons c cs ih =>
    obtain ⟨hc, hcs⟩ := not_or.1 (mt List.mem_cons.2 hcs)
    rw [piecesFrom, if_neg (Ne.symm hc), ih hcs, List.map_cons]

end

/-! ## Expansion of parts -/

/-- A group as it is written. -/
def braced (key : String) : String :=
  "\x7b" ++ key ++ "\x7d"

section
variable {t t₁ t₂ key : String} {texts : CallTexts}

/-- The pieces of two templates in a row are those of both if the groups of the first one close. -/
theorem pieces_append (h : GroupsClose t₁.toList) : pieces (t₁ ++ t₂) = pieces t₁ ++ pieces t₂ := by
  rw [pieces, String.toList_append]
  exact piecesFrom_append (by simp) h

/-- A group in front of a template is its first piece. -/
theorem pieces_braced_append (hkey : '\x7d' ∉ key.toList) :
    pieces (braced key ++ t) = .group key :: pieces t := by
  have htext : (braced key ++ t).toList = '\x7b' :: (key.toList ++ '\x7d' :: t.toList) := by
    simp [braced]
  rw [pieces, htext, piecesFrom_group hkey, String.ofList_toList, pieces]

/-- Two templates in a row are expanded one after the other if the groups of the first one close. -/
theorem expand_append (h : GroupsClose t₁.toList) :
    expand (t₁ ++ t₂) texts = expand t₁ texts ++ expand t₂ texts := by
  apply String.toList_injective
  rw [String.toList_append, toList_expand, toList_expand, toList_expand, pieces_append h,
    List.flatMap_append]

/-- A group in front of a template is expanded on its own. -/
theorem expand_braced_append (hkey : '\x7d' ∉ key.toList) :
    expand (braced key ++ t) texts = groupText (placeholder? texts) key ++ expand t texts := by
  apply String.toList_injective
  rw [String.toList_append, toList_expand, toList_expand, pieces_braced_append hkey,
    List.flatMap_cons, Piece.expand]

/-- A template without groups is expanded to itself. -/
theorem expand_eq_self (h : pieces t = t.toList.map .char) : expand t texts = t := by
  apply String.toList_injective
  rw [toList_expand, h, flatMap_expand_map_char]

/-- A template without braces that open is expanded to itself. -/
theorem expand_plain (h : '\x7b' ∉ t.toList) : expand t texts = t :=
  expand_eq_self (piecesFrom_plain h)

/-- A group that nothing closes is expanded to itself. -/
theorem expand_open (hkey : '\x7d' ∉ key.toList) :
    expand ("\x7b" ++ key) texts = "\x7b" ++ key := by
  apply expand_eq_self
  rw [pieces, String.toList_append]
  exact piecesFrom_open hkey

/-- A group that is no placeholder is left as it is written. -/
theorem groupText_of_not_isPlaceholder (h : ¬IsPlaceholder key) :
    groupText (placeholder? texts) key = braced key := by
  rw [← isSome_placeholder?_iff texts, Option.not_isSome_iff_eq_none] at h
  rw [groupText, h, Option.getD_none, braced]

/-- A group between two templates is expanded on its own. -/
theorem expand_append_braced_append (h : GroupsClose t₁.toList) (hkey : '\x7d' ∉ key.toList) :
    expand (t₁ ++ braced key ++ t₂) texts =
      expand t₁ texts ++ groupText (placeholder? texts) key ++ expand t₂ texts := by
  rw [String.append_assoc, expand_append h, expand_braced_append hkey, String.append_assoc]

/-- Behind a brace that nothing closed, every group is kept: it ends a larger one, with a brace in
its key. -/
theorem expand_braced_of_not_groupsClose (h : ¬GroupsClose t₁.toList) (hkey : '\x7d' ∉ key.toList) :
    expand (t₁ ++ braced key ++ t₂) texts = expand t₁ texts ++ braced key ++ expand t₂ texts := by
  obtain ⟨before, opened, heq, hbefore, hopened⟩ := exists_open_of_not_groupsClose h
  obtain ⟨before, rfl⟩ : ∃ s : String, s.toList = before := ⟨_, String.toList_ofList⟩
  obtain ⟨opened, rfl⟩ : ∃ s : String, s.toList = opened := ⟨_, String.toList_ofList⟩
  obtain rfl : t₁ = before ++ ("\x7b" ++ opened) := by
    apply String.toList_injective
    simpa using heq
  have hlarger : '\x7d' ∉ (opened ++ "\x7b" ++ key).toList := by
    simp [hopened, hkey]
  have hkept : ¬IsPlaceholder (opened ++ "\x7b" ++ key) := by
    intro hplaceholder
    exact hplaceholder.not_mem (.inl rfl) (by simp)
  calc expand (before ++ ("\x7b" ++ opened) ++ braced key ++ t₂) texts
      = expand (before ++ braced (opened ++ "\x7b" ++ key) ++ t₂) texts := by
        simp only [braced, String.append_assoc]
    _ = expand before texts ++ braced (opened ++ "\x7b" ++ key) ++ expand t₂ texts := by
        rw [expand_append_braced_append hbefore hlarger, groupText_of_not_isPlaceholder hkept]
    _ = expand (before ++ ("\x7b" ++ opened)) texts ++ braced key ++ expand t₂ texts := by
        rw [expand_append hbefore, expand_open hopened]
        simp only [braced, String.append_assoc]

/-- A group between two templates that is no placeholder is left as it is written, whatever comes
first. -/
theorem expand_braced_of_not_isPlaceholder (hkey : '\x7d' ∉ key.toList) (h : ¬IsPlaceholder key) :
    expand (t₁ ++ braced key ++ t₂) texts = expand t₁ texts ++ braced key ++ expand t₂ texts := by
  by_cases hclose : GroupsClose t₁.toList
  · rw [expand_append_braced_append hclose hkey, groupText_of_not_isPlaceholder h]
  · exact expand_braced_of_not_groupsClose hclose hkey

/-- A placeholder between two templates is replaced by its text. -/
theorem expand_braced_of_isPlaceholder (hclose : GroupsClose t₁.toList) (h : IsPlaceholder key) :
    ∃ text, placeholder? texts key = some text ∧
      expand (t₁ ++ braced key ++ t₂) texts = expand t₁ texts ++ text ++ expand t₂ texts := by
  obtain ⟨text, htext⟩ := Option.isSome_iff_exists.1 ((isSome_placeholder?_iff texts).2 h)
  refine ⟨text, htext, ?_⟩
  rw [expand_append_braced_append hclose (h.not_mem (.inr rfl)), groupText, htext, Option.getD_some]

/-- Templates that leave a group open do not expand apart from what follows. -/
theorem groupsClose_of_expand_append
    (happend : ∀ t₂ texts, expand (t₁ ++ t₂) texts = expand t₁ texts ++ expand t₂ texts) :
    GroupsClose t₁.toList := by
  by_contra h
  -- a receiver that has no text is put in on the one side and kept as a group on the other
  have hrecv : '\x7d' ∉ "recv".toList := IsPlaceholder.receiver.not_mem (.inr rfl)
  have htext : groupText (placeholder? ⟨none, [], []⟩) "recv" = "" := rfl
  have hkept : expand (t₁ ++ braced "recv" ++ "") ⟨none, [], []⟩ = _ :=
    expand_braced_of_not_groupsClose h hrecv
  rw [String.append_assoc, happend, expand_braced_append hrecv, htext] at hkept
  have hlength := congrArg (·.toList.length) hkept
  simp [braced] at hlength
  omega

end

/-- **Expansion reads the template alone.** The templates that expand apart from whatever follows
them, whatever the texts of the call, are those where a brace that closes follows every brace that
opens. A template without braces that open stays as it is. Wherever it stands, a group that is no
placeholder is kept; and behind a template whose groups close, a placeholder gives way to its text,
which is not looked into. -/
theorem expand_never_rescans :
    (∀ t₁ : String, GroupsClose t₁.toList ↔ ∀ (t₂ : String) (texts : CallTexts),
      expand (t₁ ++ t₂) texts = expand t₁ texts ++ expand t₂ texts) ∧
    (∀ (t : String) (texts : CallTexts), '\x7b' ∉ t.toList → expand t texts = t) ∧
    (∀ (t₁ key t₂ : String) (texts : CallTexts), '\x7d' ∉ key.toList → ¬IsPlaceholder key →
      expand (t₁ ++ braced key ++ t₂) texts = expand t₁ texts ++ braced key ++ expand t₂ texts) ∧
    (∀ (t₁ key t₂ : String) (texts : CallTexts), GroupsClose t₁.toList → IsPlaceholder key →
      ∃ text, placeholder? texts key = some text ∧
        expand (t₁ ++ braced key ++ t₂) texts = expand t₁ texts ++ text ++ expand t₂ texts) := by
  refine ⟨fun t₁ => ⟨fun h t₂ texts => expand_append h, groupsClose_of_expand_append⟩, ?_, ?_, ?_⟩
  · intro t texts h
    exact expand_plain h
  · intro t₁ key t₂ texts hkey h
    exact expand_braced_of_not_isPlaceholder hkey h
  · intro t₁ key t₂ texts hclose h
    exact expand_braced_of_isPlaceholder hclose h

/-- A call whose texts look like groups. -/
def groupLikeTexts : CallTexts :=
  ⟨some "\x7b0\x7d", ["\x7brecv\x7d", "S \x7b a: \x7b1\x7d \x7d"], [.f64]⟩

/-- Texts that look like groups are not expanded again. -/
theorem groupLikeTexts_expand :
    (GroupsClose "format!(\"\x7b\x7d\x7b\x7d\", \x7brecv\x7d, \x7b0\x7d)".toList ∧
      expand ("format!(\"\x7b\x7d\x7b\x7d\", \x7brecv\x7d, \x7b0\x7d)" ++ "[\x7b1\x7d") groupLikeTexts =
        "format!(\"\x7b\x7d\x7b\x7d\", \x7b0\x7d, \x7brecv\x7d)[S \x7b a: \x7b1\x7d \x7d") ∧
    ('\x7b' ∉ "0\x7d]".toList ∧ expand "0\x7d]" groupLikeTexts = "0\x7d]") ∧
    (¬IsPlaceholder ":?" ∧ expand ("\x7b" ++ braced ":?" ++ "\x7b0\x7d") groupLikeTexts =
      "\x7b\x7b:?\x7d\x7brecv\x7d") ∧
    (IsPlaceholder "+01:usize" ∧
      expand ("\x7b0\x7d.." ++ braced "+01:usize" ++ "\x7b") groupLikeTexts =
        "\x7brecv\x7d..(S \x7b a: \x7b1\x7d \x7d) as usize\x7b") := by
  obtain ⟨happend, hplain, hkept, hput⟩ := expand_never_rescans
  refine ⟨⟨by decide +kernel, ?_⟩, ⟨by decide +kernel, hplain _ _ (by decide +kernel)⟩,
    ⟨by decide +kernel, ?_⟩, ⟨by decide +kernel, ?_⟩⟩
  · rw [(happend _).1 (by decide +kernel)]
    decide +kernel
  · rw [hkept _ _ _ _ (by decide +kernel) (by decide +kernel)]
    decide +kernel
  · obtain ⟨text, htext, hexpand⟩ :=
      hput "\x7b0\x7d.." "+01:usize" "\x7b" groupLikeTexts (by decide +kernel) (by decide +kernel)
    obtain rfl : "(S \x7b a: \x7b1\x7d \x7d) as usize" = text := by
      rw [← Option.some_inj, ← htext]
      decide +kernel
    rw [hexpand]
    decide +kernel

end Template

end Oxidize
