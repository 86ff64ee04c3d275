import Oxidize.Proofs.Grammar.Expression

/-!
# Emitted names are names

The name that is written for an identifier is a single word of the emitted source which names a
value: `Name.value_spells` says how its characters are read, `Name.isName_value` that the word is no
keyword. Both rest on what snake case does with characters, that is, on the table of lower-case
forms.
-/

namespace Oxidize

open Source

/-! ## Lower-case forms -/

namespace Text

/-- A character that a word may start with, other than the underscore. -/
def IsLetter (c : Char) : Prop :=
  isWordStart c = true ∧ c ≠ '_'

/-- Characters with the codes of letters are letters. -/
theorem isLetter_of_toNat {c : Char}
    (hc : (65 ≤ c.toNat ∧ c.toNat ≤ 90) ∨ (97 ≤ c.toNat ∧ c.toNat ≤ 122) ∨ 128 ≤ c.toNat) :
    IsLetter c := by
  refine ⟨isWordStart_iff.2 (by omega), ?_⟩
  rintro rfl
  simp at hc

/-- The character with a valid code has that code. -/
theorem toNat_ofNat {n : Nat} (hn : n.isValidChar) : (Char.ofNat n).toNat = n := by
  rw [Char.ofNat, dif_pos hn]
  rfl

/-- Capital letters are letters. -/
theorem isLetter_of_isUpper {c : Char} (hc : isUpper c = true) : IsLetter c := by
  have htable : ∀ run ∈ upperRuns, (65 ≤ run.1 ∧ run.2.1 ≤ 90) ∨ 128 ≤ run.1 := by decide +kernel
  obtain ⟨⟨first, last, step⟩, hmem, hrun⟩ := List.any_eq_true.1 hc
  have hbounds := htable _ hmem
  simp only [inRun, Bool.and_eq_true, decide_eq_true_eq] at hrun hbounds
  exact isLetter_of_toNat (by omega)

/-- The lower-case form of an upper-case character is a letter, with word characters after it. -/
theorem toLower_eq_cons {c : Char} (hc : isUpper c = true) :
    ∃ d ds, toLower c = d :: ds ∧ IsLetter d ∧ ∀ e ∈ ds, isWordChar e = true := by
  have htable : ∀ run ∈ toLowerRuns,
      (97 ≤ run.1 + run.2.2.2 ∧ run.2.1 + run.2.2.2 ≤ 122) ∨
        (128 ≤ run.1 + run.2.2.2 ∧ run.2.1 + run.2.2.2 < 55296) ∨
        (57344 ≤ run.1 + run.2.2.2 ∧ run.2.1 + run.2.2.2 < 1114112) := by
    decide +kernel
  rw [toLower, mapCase]
  -- The one sequence of the table, a run of it, or a character that has no lower-case form.
  split
  next codes hcodes =>
    have hsequence : codes = [0x69, 0x307] := by
      obtain ⟨l₁, l₂, heq, -⟩ := List.lookup_eq_some_iff.1 hcodes
      have hmem : (c.toNat, codes) ∈ toLowerSequences := heq ▸ List.mem_append_right l₁ (.head l₂)
      exact (Prod.mk.inj (List.mem_singleton.1 hmem)).2
    exact ⟨Char.ofNat 0x69, [Char.ofNat 0x307], by rw [hsequence]; rfl,
      isLetter_of_toNat (by decide), List.forall_mem_cons.2 ⟨by decide, nofun⟩⟩
  next =>
    split
    next first last step shift hfind =>
      have hbounds := htable _ (List.mem_of_find?_eq_some hfind)
      have hrun := List.find?_some hfind
      simp only [inRun, Bool.and_eq_true, decide_eq_true_eq] at hrun hbounds
      have htoNat : (Char.ofNat (c.toNat + shift).toNat).toNat = (c.toNat + shift).toNat :=
        toNat_ofNat (by omega)
      exact ⟨_, [], rfl, isLetter_of_toNat (by omega), nofun⟩
    next => exact ⟨c, [], rfl, isLetter_of_isUpper hc, nofun⟩

end Text

namespace Name

/-- Whether a name is an identifier: a word other than the wildcard. -/
def isIdentifier (name : String) : Bool :=
  isWord name.toList && name != "_"

/-- An identifier is a word other than the wildcard. -/
theorem isIdentifier_iff {name : String} :
    isIdentifier name = true ↔ isWord name.toList = true ∧ name ≠ "_" := by
  rw [isIdentifier, Bool.and_eq_true, bne_iff_ne]

/-- An identifier is one token. -/
theorem spells_of_isIdentifier {name : String} (h : isIdentifier name = true) :
    Spells name.toList [.word name] := by
  have hword := spells_word (isIdentifier_iff.1 h).1
  rwa [String.ofList_toList] at hword

/-! ## Snake case -/

/-- Snake case has only characters of words. -/
theorem snakeFrom_isWordChar {cs : List Char} (hcs : ∀ c ∈ cs, isWordChar c = true)
    (prev : Option Char) : ∀ d ∈ snakeFrom prev cs, isWordChar d = true := by
  induction cs generalizing prev with
  | nil => nofun
  | cons c cs ih =>
    obtain ⟨hc, hcs⟩ := List.forall_mem_cons.1 hcs
    intro d hd
    rw [snakeFrom, List.mem_append] at hd
    rcases hd with hd | hd
    · split at hd
      next hupper =>
        obtain ⟨e, es, heq, he, hes⟩ := Text.toLower_eq_cons hupper
        rw [heq, List.mem_append, List.mem_cons] at hd
        rcases hd with hd | rfl | hd
        · split at hd
          · rw [List.mem_singleton.1 hd]
            decide
          · cases hd
        · simp [isWordChar, he.1]
        · exact hes d hd
      next =>
        rw [List.mem_singleton.1 hd]
        exact hc
    · exact ih hcs _ d hd

/-- Snake case leaves no name empty. -/
theorem snakeFrom_eq_nil {prev : Option Char} {cs : List Char} (h : snakeFrom prev cs = []) :
    cs = [] := by
  cases cs with
  | nil => rfl
  | cons c cs =>
    rw [snakeFrom] at h
    split at h
    next hupper =>
      obtain ⟨e, es, heq, -⟩ := Text.toLower_eq_cons hupper
      simp [heq] at h
    next => simp at h

/-- A name in snake case starts as a word, and with the underscore only if the name does. -/
theorem snakeFrom_none_cons {c : Char} (cs : List Char) (hc : isWordStart c = true) :
    ∃ d ds, snakeFrom none (c :: cs) = d :: ds ∧ isWordStart d = true ∧
      (d :: ds = ['_'] → c :: cs = ['_']) := by
  rw [snakeFrom]
  split
  next hupper =>
    obtain ⟨e, es, heq, he, -⟩ := Text.toLower_eq_cons hupper
    refine ⟨e, es ++ snakeFrom (some c) cs, by simp [heq, startsWord], he.1, fun h => ?_⟩
    exact absurd (List.cons.inj h).1 he.2
  next =>
    refine ⟨c, snakeFrom (some c) cs, rfl, hc, fun h => ?_⟩
    obtain ⟨rfl, hnil⟩ := List.cons.inj h
    rw [snakeFrom_eq_nil hnil]

/-- The snake case of an identifier is an identifier. -/
theorem isIdentifier_snakeCase {name : String} (h : isIdentifier name = true) :
    isIdentifier (snakeCase name) = true := by
  obtain ⟨hword, hne⟩ := isIdentifier_iff.1 h
  obtain ⟨c, cs, heq, hc, hcs⟩ := isWord_iff.1 hword
  obtain ⟨d, ds, hsnake, hd, hwild⟩ := snakeFrom_none_cons cs hc
  have hchars : ∀ e ∈ d :: ds, isWordChar e = true := by
    rw [← hsnake]
    exact snakeFrom_isWordChar (List.forall_mem_cons.2 ⟨by simp [isWordChar, hc], hcs⟩) none
  refine isIdentifier_iff.2 ⟨isWord_iff.2 ⟨d, ds, ?_, hd, (List.forall_mem_cons.1 hchars).2⟩,
    fun h => hne ?_⟩
  · rw [snakeCase, heq, hsnake, String.toList_ofList]
  · rw [snakeCase, heq, hsnake] at h
    have := hwild (by simpa using congrArg String.toList h)
    rw [← String.toList_inj, heq, this]
    rfl

/-! ## Escapes -/

/-- The two ways in which a keyword is written as a name, and any other identifier as it is. -/
theorem escape_cases (name : String) :
    (name ∈ reserved ∧ escape name = name ++ "_") ∨ (name ∈ keywords ∧ escape name = "r#" ++ name) ∨
      (name ∉ reserved ∧ name ∉ keywords ∧ escape name = name) := by
  rw [escape]
  by_cases hreserved : name ∈ reserved
  · exact .inl ⟨hreserved, by simp [hreserved]⟩
  · by_cases hkeyword : name ∈ keywords
    · exact .inr (.inl ⟨hkeyword, by simp [hreserved, hkeyword]⟩)
    · exact .inr (.inr ⟨hreserved, hkeyword, by simp [hreserved, hkeyword]⟩)

/-- The escaped form of an identifier is one token. -/
theorem spells_escape {name : String} (h : isIdentifier name = true) :
    Spells (escape name).toList [.word (escape name)] := by
  rcases escape_cases name with ⟨hname, heq⟩ | ⟨-, heq⟩ | ⟨-, -, heq⟩
  · rw [heq]
    have hall : ∀ n ∈ reserved, isIdentifier (n ++ "_") = true := by decide +kernel
    exact spells_of_isIdentifier (hall name hname)
  · have hraw : escape name = String.ofList ('r' :: '#' :: name.toList) := by
      simp [heq, ← String.toList_inj]
    rw [hraw, String.toList_ofList]
    exact spells_raw_word (isIdentifier_iff.1 h).1
  · rw [heq]
    exact spells_of_isIdentifier h

/-- The escaped form of an identifier names a value. -/
theorem isName_escape {name : String} (h : isIdentifier name = true) :
    isName (escape name) = true := by
  rcases escape_cases name with ⟨hname, heq⟩ | ⟨hname, heq⟩ | ⟨hreserved, hkeyword, heq⟩
  · rw [heq]
    have hall : ∀ n ∈ reserved, isName (n ++ "_") = true := by decide +kernel
    exact hall name hname
  · rw [heq]
    have hall : ∀ n ∈ keywords, isName ("r#" ++ n) = true := by decide +kernel
    exact hall name hname
  · rw [heq]
    simp [isName, (isIdentifier_iff.1 h).2, hreserved, hkeyword]

/-- The name that is written for an identifier is one word. -/
theorem value_spells {name : String} (h : isIdentifier name = true) :
    Spells (value name).toList [.word (value name)] := by
  rw [value]
  split
  · exact spells_of_isIdentifier (by decide +kernel)
  · exact spells_escape (isIdentifier_snakeCase h)

/-- The name that is written for an identifier is no keyword. -/
theorem isName_value {name : String} (h : isIdentifier name = true) :
    isName (value name) = true := by
  rw [value]
  split
  · decide +kernel
  · exact isName_escape (isIdentifier_snakeCase h)

end Name

end Oxidize
