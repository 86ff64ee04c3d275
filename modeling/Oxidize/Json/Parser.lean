import Oxidize.Json.Basic

/-!
# Reading JSON text

`Json.parse?` accepts strict JSON: one value with blanks around it, no comments, no trailing
commas, no raw control characters in strings, no superfluous leading zeros. What is well formed but
denotes no value becomes `Json.unreadable`.
-/

namespace Oxidize

namespace Json

/-- The four blank characters of the format. -/
def isBlank (c : Char) : Bool :=
  c == ' ' || c == '\n' || c == '\t' || c == '\r'

/-- The text without its leading blanks. -/
def skipBlanks (cs : List Char) : List Char :=
  cs.dropWhile isBlank

/-- The value of a hexadecimal digit in either case. -/
def hexDigit? (c : Char) : Option Nat :=
  if '0' ≤ c ∧ c ≤ '9' then some (c.toNat - '0'.toNat)
  else if 'a' ≤ c ∧ c ≤ 'f' then some (c.toNat - 'a'.toNat + 10)
  else if 'A' ≤ c ∧ c ≤ 'F' then some (c.toNat - 'A'.toNat + 10)
  else none

/-- The sixteen bits of four hexadecimal digits. -/
def hexUnit? (a b c d : Char) : Option Nat := do
  return (((← hexDigit? a) * 16 + (← hexDigit? b)) * 16 + (← hexDigit? c)) * 16 + (← hexDigit? d)

/-- The code point of a one-character escape. -/
def escape? : Char → Option Nat
  | '"' => some 0x22
  | '\\' => some 0x5c
  | '/' => some 0x2f
  | 'b' => some 0x08
  | 'f' => some 0x0c
  | 'n' => some 0x0a
  | 'r' => some 0x0d
  | 't' => some 0x09
  | _ => none

/-- The rest of a string after its opening quote, and what follows it. A unit is the code point of a
character or the sixteen bits of an escape; `seen` holds the units so far, latest first. -/
def stringUnits? (seen : List Nat) : List Char → Option (List Nat × List Char)
  | [] => none
  | '"' :: rest => some (seen.reverse, rest)
  | '\\' :: 'u' :: a :: b :: c :: d :: rest =>
    match hexUnit? a b c d with
    | some u => stringUnits? (u :: seen) rest
    | none => none
  | '\\' :: c :: rest =>
    match escape? c with
    | some u => stringUnits? (u :: seen) rest
    | none => none
  | c :: rest =>
    if c.toNat < 0x20 || c == '\\' then none else stringUnits? (c.toNat :: seen) rest

/-- A unit that opens a surrogate pair. -/
def isHighSurrogate (u : Nat) : Bool :=
  decide (0xd800 ≤ u ∧ u ≤ 0xdbff)

/-- A unit that closes a surrogate pair. -/
def isLowSurrogate (u : Nat) : Bool :=
  decide (0xdc00 ≤ u ∧ u ≤ 0xdfff)

/-- The characters of a sequence of units, each high surrogate joined with the low one that must
follow it; `seen` holds the characters so far, latest first. -/
def unitChars? (seen : List Char) : List Nat → Option (List Char)
  | [] => some seen.reverse
  | u :: rest =>
    if isHighSurrogate u then
      match rest with
      | v :: rest =>
        if isLowSurrogate v then
          unitChars? (Char.ofNat (0x10000 + (u - 0xd800) * 0x400 + (v - 0xdc00)) :: seen) rest
        else none
      | [] => none
    else if isLowSurrogate u then none
    else unitChars? (Char.ofNat u :: seen) rest

/-- A string after its opening quote: its text, if the escapes denote one, and what follows. -/
def stringBody? (cs : List Char) : Option (Option String × List Char) := do
  let (units, rest) ← stringUnits? [] cs
  return ((unitChars? [] units).map String.ofList, rest)

/-- The natural number of a run of decimal digits. -/
def digitsValue (ds : List Char) : Nat :=
  ds.foldl (fun n c => n * 10 + (c.toNat - '0'.toNat)) 0

/-- The digits before the point: a single zero, or digits that do not start with one. -/
def wholeDigits? (cs : List Char) : Option (List Char × List Char) :=
  match cs.span Char.isDigit with
  | ([], _) => none
  | ('0' :: _ :: _, _) => none
  | (ds, rest) => some (ds, rest)

/-- The digits after a point, at least one; none without a point. -/
def fractionDigits? : List Char → Option (List Char × List Char)
  | '.' :: cs =>
    match cs.span Char.isDigit with
    | ([], _) => none
    | (ds, rest) => some (ds, rest)
  | cs => some ([], cs)

/-- The digits of an exponent after its mark and sign. -/
def exponentDigits? (negative : Bool) (cs : List Char) : Option (Option Int × List Char) :=
  match cs.span Char.isDigit with
  | ([], _) => none
  | (ds, rest) => some (some (if negative then -(digitsValue ds : Int) else digitsValue ds), rest)

/-- The exponent, if the text starts with an exponent mark. -/
def exponentPart? : List Char → Option (Option Int × List Char)
  | 'e' :: '+' :: cs | 'E' :: '+' :: cs => exponentDigits? false cs
  | 'e' :: '-' :: cs | 'E' :: '-' :: cs => exponentDigits? true cs
  | 'e' :: cs | 'E' :: cs => exponentDigits? false cs
  | cs => some (none, cs)

/-- The value of a number from its parts. Whole numbers of at most 64 bits are integers, except for
the negative zero. -/
def ofParts (negative : Bool) (whole fraction : List Char) (exponent : Option Int) : Json :=
  let n := digitsValue (whole ++ fraction)
  let plain := fraction.isEmpty && exponent.isNone
  if plain && !negative && decide (n < Nat.pow 2 64) then .integer n
  else if plain && negative && decide (0 < n ∧ n ≤ Nat.pow 2 63) then .integer (-(n : Int))
  else
    match Binary64.ofDecimal? negative n (exponent.getD 0 - fraction.length) with
    | some x => .float x
    | none => .unreadable

/-- A number and what follows it. -/
def number (cs : List Char) : Option (Json × List Char) := do
  let (negative, cs) := match cs with
    | '-' :: rest => (true, rest)
    | cs => (false, cs)
  let (whole, cs) ← wholeDigits? cs
  let (fraction, cs) ← fractionDigits? cs
  let (exponent, cs) ← exponentPart? cs
  return (ofParts negative whole fraction exponent, cs)

/-- The object of the given members, unreadable when a name is. -/
def ofMembers (members : List (Option String × Json)) : Json :=
  match members.mapM fun m => m.1.map fun name => (name, m.2) with
  | some members => .object members
  | none => .unreadable

mutual

/-- A value and what follows it. The number bounds the calls; twice the length of the text is
enough, since every second call takes a character. -/
def value? : Nat → List Char → Option (Json × List Char)
  | 0, _ => none
  | n + 1, cs =>
    match skipBlanks cs with
    | 'n' :: 'u' :: 'l' :: 'l' :: rest => some (.null, rest)
    | 't' :: 'r' :: 'u' :: 'e' :: rest => some (.bool true, rest)
    | 'f' :: 'a' :: 'l' :: 's' :: 'e' :: rest => some (.bool false, rest)
    | '"' :: rest => do
      let (text, rest) ← stringBody? rest
      return (text.elim .unreadable .string, rest)
    | '[' :: rest =>
      match skipBlanks rest with
      | ']' :: rest => some (.array [], rest)
      | rest => do
        let (items, rest) ← items? n rest
        return (.array items, rest)
    | '\x7b' :: rest =>
      match skipBlanks rest with
      | '\x7d' :: rest => some (.object [], rest)
      | rest => do
        let (members, rest) ← members? n rest
        return (ofMembers members, rest)
    | rest => number rest

/-- The items of a non-empty array up to its closing bracket. -/
def items? : Nat → List Char → Option (List Json × List Char)
  | 0, _ => none
  | n + 1, cs => do
    let (item, rest) ← value? n cs
    match skipBlanks rest with
    | ',' :: rest =>
      let (items, rest) ← items? n rest
      return (item :: items, rest)
    | ']' :: rest => return ([item], rest)
    | _ => none

/-- The members of a non-empty object up to its closing brace. -/
def members? : Nat → List Char → Option (List (Option String × Json) × List Char)
  | 0, _ => none
  | n + 1, cs => do
    let '"' :: rest := skipBlanks cs | none
    let (name, rest) ← stringBody? rest
    let ':' :: rest := skipBlanks rest | none
    let (item, rest) ← value? n rest
    match skipBlanks rest with
    | ',' :: rest =>
      let (members, rest) ← members? n rest
      return ((name, item) :: members, rest)
    | '\x7d' :: rest => return ([(name, item)], rest)
    | _ => none

end

/-- The value a text denotes, with nothing but blanks around it. -/
def parse? (text : String) : Option Json := do
  let cs := text.toList
  let (v, rest) ← value? (2 * cs.length + 2) cs
  if (skipBlanks rest).isEmpty then some v else none

end Json

end Oxidize
