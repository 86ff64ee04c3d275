import Oxidize.Builtin.Dispatch

/-!
# The pieces of a template

A template is read once: `Template.pieces` lists what stands in it, characters of its own and groups
in braces. Expanding it keeps the characters and puts a text in the place of every group
(`Template.toList_expand`), so what a template does to the text of an argument can be read off its
pieces. The builtins that calls mean are those of the tables (`Dispatch.rule_mem`).
-/

namespace Oxidize

namespace Template

/-- A piece of a template: a character of its own or a group in braces. -/
inductive Piece where
  | char (c : Char)
  | group (key : String)
deriving DecidableEq

/-- The pieces of the rest of a template. The first argument is the text of the open group, as for
`expandFrom`; a group that never closes is made of characters. -/
def piecesFrom : Option (List Char) → List Char → List Piece
  | none, [] => []
  | some key, [] => ('\x7b' :: key.reverse).map .char
  | none, c :: rest =>
    if c = '\x7b' then piecesFrom (some []) rest else .char c :: piecesFrom none rest
  | some key, c :: rest =>
    if c = '\x7d' then .group (String.ofList key.reverse) :: piecesFrom none rest
    else piecesFrom (some (c :: key)) rest

/-- The pieces of a template. -/
def pieces (template : String) : List Piece :=
  piecesFrom none template.toList

/-- The text of a group. -/
def groupText (replace : String → Option String) (key : String) : String :=
  (replace key).getD ("\x7b" ++ key ++ "\x7d")

/-- What a piece becomes. -/
def Piece.expand (replace : String → Option String) : Piece → List Char
  | .char c => [c]
  | .group key => (groupText replace key).toList

/-- Characters of a template are expanded to themselves. -/
theorem flatMap_expand_map_char (replace : String → Option String) (cs : List Char) :
    (cs.map Piece.char).flatMap (Piece.expand replace) = cs := by
  rw [List.flatMap_map]
  exact List.flatMap_singleton' cs

/-- Expansion goes piece by piece. -/
theorem expandFrom_eq_flatMap (replace : String → Option String) (group : Option (List Char))
    (cs : List Char) :
    expandFrom replace group cs = (piecesFrom group cs).flatMap (Piece.expand replace) := by
  induction cs generalizing group with
  | nil =>
    cases group with
    | none => rfl
    | some key => rw [expandFrom, piecesFrom, flatMap_expand_map_char]
  | cons c rest ih =>
    cases group with
    | none =>
      rw [expandFrom, piecesFrom]
      split
      · exact ih _
      · rw [ih, List.flatMap_cons]
        rfl
    | some key =>
      rw [expandFrom, piecesFrom]
      split
      · simp only [ih, List.flatMap_cons, Piece.expand, groupText]
      · exact ih _

/-- Expanding a template keeps its characters and replaces its groups, in order. -/
theorem toList_expand (template : String) (texts : CallTexts) :
    (expand template texts).toList =
      (pieces template).flatMap (Piece.expand (placeholder? texts)) := by
  rw [expand, String.toList_ofList]
  exact expandFrom_eq_flatMap _ _ _

/-- A property of the pieces of a literal is decided on its characters. The literal is
`String.ofList` of them by definition, so that nothing has to be decoded. -/
theorem of_ofList {P : List Piece → Prop} {template : String} {cs : List Char}
    (htemplate : template = String.ofList cs) (h : P (piecesFrom none cs)) : P (pieces template) := by
  rwa [htemplate, pieces, String.toList_ofList]

/-- A character of a template is in every expansion of it. -/
theorem mem_expand_of_char {template : String} {c : Char} (h : .char c ∈ pieces template)
    (texts : CallTexts) : c ∈ (expand template texts).toList := by
  rw [toList_expand, List.mem_flatMap]
  exact ⟨.char c, h, List.mem_singleton.2 rfl⟩

end Template

/-! ## The builtins of calls -/

/-- A builtin that is looked up is in the table. -/
theorem Table.mem_rules_of_lookup? {table : Table} {method : String} {rule : Rule}
    (h : table.lookup? method = some rule) : rule ∈ table.rules :=
  List.mem_of_find?_eq_some h

namespace Dispatch

variable {ns : Option Namespace} {receiver : Option Ty} {method : String} {d : Dispatch}

/-- A builtin that is chosen from a table is in it. -/
theorem rule_mem_of_inTable? {table : Table} (h : inTable? table method = some d) :
    d.rule ∈ d.table.rules := by
  obtain ⟨rule, hrule, rfl⟩ := Option.map_eq_some_iff.1 h
  exact Table.mem_rules_of_lookup? hrule

/-- A builtin that is chosen by its name alone is in its table. -/
theorem rule_mem_of_byName? (h : byName? method = some d) : d.rule ∈ d.table.rules := by
  unfold byName? at h
  split at h
  · next hseq _ => cases h; exact Table.mem_rules_of_lookup? hseq
  · next htext => cases h; exact Table.mem_rules_of_lookup? htext
  · next hseq _ => cases h; exact Table.mem_rules_of_lookup? hseq
  · cases h

/-- A builtin that is chosen for a value is in its table. -/
theorem rule_mem_of_onValue? (h : onValue? receiver method = some d) : d.rule ∈ d.table.rules := by
  unfold onValue? at h
  split at h
  · exact rule_mem_of_inTable? h
  · split at h
    · exact rule_mem_of_inTable? h
    · split at h
      · exact rule_mem_of_byName? h
      · cases h
  · exact rule_mem_of_byName? h

/-- The builtin of a call is a method of its table. -/
theorem rule_mem (h : of? ns receiver method = some d) : d.rule ∈ d.table.rules := by
  cases ns with
  | some ns => exact rule_mem_of_inTable? h
  | none => exact rule_mem_of_onValue? h

end Dispatch

end Oxidize
