import Oxidize.Json.Parser

/-!
# Scalars of TOML

Strings are read from their opening quote on. Every other scalar is one word, the longest run of
characters that can stand in a number, a date or a truth value, and `scalar?` says what the whole
word means. A date has no counterpart among JSON values, so it becomes a record of its text.
-/

namespace Oxidize

namespace Toml

/-- A blank within a line. -/
def isBlank (c : Char) : Bool :=
  c == ' ' || c == '\t'

/-- The text without its leading blanks. -/
def skipBlanks (cs : List Char) : List Char :=
  cs.dropWhile isBlank

/-- A character that may stand for itself in a comment or a string: no control character but the
tab. -/
def isPlain (c : Char) : Bool :=
  c == '\t' || (decide (0x20 ≤ c.toNat) && c.toNat != 0x7f)

/-- What follows a line break at the start of the text. -/
def newline? : List Char → Option (List Char)
  | '\n' :: rest => some rest
  | '\r' :: '\n' :: rest => some rest
  | _ => none

/-! ## Strings -/

/-- The character of a one-letter escape. -/
def escape? : Char → Option Char
  | 'b' => some '\x08'
  | 't' => some '\t'
  | 'n' => some '\n'
  | 'f' => some '\x0c'
  | 'r' => some '\r'
  | '"' => some '"'
  | '\\' => some '\\'
  | _ => none

/-- The character with the given number, unless it is a surrogate or too large. -/
def character? (n : Nat) : Option Char :=
  if n < 0xd800 ∨ (0xdfff < n ∧ n < 0x110000) then some (Char.ofNat n) else none

/-- The character whose number is written in exactly so many hexadecimal digits, and what
follows. -/
def numbered? (digits : Nat) (cs : List Char) : Option (Char × List Char) := do
  let ds ← (cs.take digits).mapM Json.hexDigit?
  if ds.length = digits then
    return (← character? (ds.foldl (fun n d => n * 16 + d) 0), cs.drop digits)
  else none

/-- The character of an escape after its backslash, and what follows. -/
def escaped? : List Char → Option (Char × List Char)
  | 'u' :: rest => numbered? 4 rest
  | 'U' :: rest => numbered? 8 rest
  | c :: rest => (escape? c).map (·, rest)
  | [] => none

/-- A string on one line after its opening quote, and what follows it. The number bounds the steps;
`seen` holds the characters so far, latest first. -/
def basicBody? : Nat → List Char → List Char → Option (String × List Char)
  | 0, _, _ => none
  | _ + 1, _, [] => none
  | n + 1, seen, c :: rest =>
    if c == '"' then some (String.ofList seen.reverse, rest)
    else if c == '\\' then do
      let (e, rest) ← escaped? rest
      basicBody? n (e :: seen) rest
    else if isPlain c then basicBody? n (c :: seen) rest
    else none

/-- A string without escapes on one line after its opening quote, and what follows it. -/
def literalBody? (cs : List Char) : Option (String × List Char) :=
  match cs.span fun c => isPlain c && c != '\'' with
  | (text, '\'' :: rest) => some (String.ofList text, rest)
  | _ => none

/-- The end of a string over several lines, at the first of a run of quotes: three quotes close it,
and up to two more before them belong to it. -/
def closing? (quote : Char) (cs : List Char) : Option (List Char × List Char) :=
  let run := (cs.takeWhile (· == quote)).length
  if run < 3 then none
  else
    let inner := min (run - 3) 2
    some (List.replicate inner quote, cs.drop (inner + 3))

/-- The text after a backslash at the end of a line: the break and all blanks and breaks after it are
dropped. -/
def continuation? (cs : List Char) : Option (List Char) := do
  let rest ← newline? (skipBlanks cs)
  return dropBreaks rest.length rest
where
  /-- The text without leading blanks and breaks. -/
  dropBreaks : Nat → List Char → List Char
    | 0, cs => cs
    | n + 1, cs =>
      match newline? (skipBlanks cs) with
      | some rest => dropBreaks n rest
      | none => skipBlanks cs

/-- A string over several lines, and what follows it. -/
def multiBasicBody? : Nat → List Char → List Char → Option (String × List Char)
  | 0, _, _ => none
  | _ + 1, _, [] => none
  | n + 1, seen, c :: rest =>
    if c == '"' then
      match closing? '"' (c :: rest) with
      | some (inner, after) => some (String.ofList (inner ++ seen).reverse, after)
      | none => multiBasicBody? n (c :: seen) rest
    else if c == '\\' then
      match escaped? rest with
      | some (e, rest) => multiBasicBody? n (e :: seen) rest
      | none =>
        match continuation? rest with
        | some rest => multiBasicBody? n seen rest
        | none => none
    else
      match newline? (c :: rest) with
      | some rest => multiBasicBody? n ('\n' :: seen) rest
      | none => if isPlain c then multiBasicBody? n (c :: seen) rest else none

/-- A string without escapes over several lines, and what follows it. -/
def multiLiteralBody? : Nat → List Char → List Char → Option (String × List Char)
  | 0, _, _ => none
  | _ + 1, _, [] => none
  | n + 1, seen, c :: rest =>
    if c == '\'' then
      match closing? '\'' (c :: rest) with
      | some (inner, after) => some (String.ofList (inner ++ seen).reverse, after)
      | none => multiLiteralBody? n (c :: seen) rest
    else
      match newline? (c :: rest) with
      | some rest => multiLiteralBody? n ('\n' :: seen) rest
      | none => if isPlain c then multiLiteralBody? n (c :: seen) rest else none

/-- The text without a line break at its start. -/
def afterBreak (cs : List Char) : List Char :=
  (newline? cs).getD cs

/-- A string of any form, and what follows it. -/
def string? : List Char → Option (String × List Char)
  | '"' :: '"' :: '"' :: rest => multiBasicBody? (rest.length + 1) [] (afterBreak rest)
  | '\'' :: '\'' :: '\'' :: rest => multiLiteralBody? (rest.length + 1) [] (afterBreak rest)
  | '"' :: rest => basicBody? (rest.length + 1) [] rest
  | '\'' :: rest => literalBody? rest
  | _ => none

/-! ## Words -/

/-- A character that can stand in a word. -/
def isWordChar (c : Char) : Bool :=
  c.isAlphanum || c == '_' || c == '+' || c == '-' || c == '.' || c == ':'

/-- Digits with single underscores between them, without the underscores. -/
def separated? (isDigit : Char → Bool) : List Char → Option (List Char)
  | [] => none
  | [c] => if isDigit c then some [c] else none
  | c :: '_' :: cs => if isDigit c then (separated? isDigit cs).map (c :: ·) else none
  | c :: cs => if isDigit c then (separated? isDigit cs).map (c :: ·) else none

/-- Whether a minus sign leads, and what follows the sign. -/
def signed : List Char → Bool × List Char
  | '-' :: cs => (true, cs)
  | '+' :: cs => (false, cs)
  | cs => (false, cs)

/-- Decimal digits without a superfluous leading zero. -/
def wholeDigits? (cs : List Char) : Option (List Char) := do
  match ← separated? Char.isDigit cs with
  | '0' :: _ :: _ => none
  | ds => some ds

/-- The number of digits in a base. -/
def inBase? (base : Nat) (cs : List Char) : Option Nat := do
  let isDigit := fun c => (Json.hexDigit? c).any (· < base)
  let ds ← (← separated? isDigit cs).mapM Json.hexDigit?
  return ds.foldl (fun n d => n * base + d) 0

/-- The integer, if it has 64 bits with sign. -/
def inRange? (i : Int) : Option Int :=
  if -(Nat.pow 2 63 : Int) ≤ i ∧ i < Nat.pow 2 63 then some i else none

/-- The integer of a word. -/
def integer? : List Char → Option Int
  | '0' :: 'x' :: ds => do inRange? (← inBase? 16 ds)
  | '0' :: 'o' :: ds => do inRange? (← inBase? 8 ds)
  | '0' :: 'b' :: ds => do inRange? (← inBase? 2 ds)
  | cs => do
    let (negative, ds) := signed cs
    let n := Json.digitsValue (← wholeDigits? ds)
    inRange? (if negative then -(n : Int) else n)

/-- A decimal digit or an underscore. -/
def isDigitChar (c : Char) : Bool :=
  c.isDigit || c == '_'

/-- The digits after a point, none without a point, and what follows. -/
def fraction? : List Char → Option (List Char × List Char)
  | '.' :: cs => do
    let (ds, rest) := cs.span isDigitChar
    return (← separated? Char.isDigit ds, rest)
  | cs => some ([], cs)

/-- The exponent that ends a word. -/
def exponent? : List Char → Option Int
  | [] => some 0
  | c :: cs =>
    if c == 'e' || c == 'E' then do
      let (negative, ds) := signed cs
      let n := Json.digitsValue (← separated? Char.isDigit ds)
      return if negative then -(n : Int) else n
    else none

/-- The infinity with the given sign. -/
def infinity (negative : Bool) : Binary64 :=
  ⟨if negative then 0xfff0000000000000 else 0x7ff0000000000000⟩

/-- The float of a word. One past the largest finite number is refused, one below the least is the
negative infinity. -/
def float? (cs : List Char) : Option Binary64 :=
  let (negative, cs) := signed cs
  if cs = ['i', 'n', 'f'] then some (infinity negative)
  else if cs = ['n', 'a', 'n'] then some ⟨0x7ff8000000000000⟩
  else do
    let (ds, rest) := cs.span isDigitChar
    let whole ← wholeDigits? ds
    let (fraction, rest) ← fraction? rest
    if fraction.isEmpty && rest.isEmpty then none
    else
      let exponent ← exponent? rest
      let digits := Json.digitsValue (whole ++ fraction)
      match Binary64.ofDecimal? negative digits (exponent - fraction.length) with
      | some x => some x
      | none => if negative then some (infinity true) else none

/-- The number of two decimal digits. -/
def twoDigits? (a b : Char) : Option Nat :=
  if a.isDigit && b.isDigit then some (Json.digitsValue [a, b]) else none

/-- The number of days of a month. -/
def daysIn (year month : Nat) : Nat :=
  if month = 2 then
    if year % 4 = 0 ∧ (year % 100 ≠ 0 ∨ year % 400 = 0) then 29 else 28
  else if month = 4 ∨ month = 6 ∨ month = 9 ∨ month = 11 then 30
  else 31

/-- What follows a date. -/
def afterDate? : List Char → Option (List Char)
  | a :: b :: c :: d :: '-' :: m :: n :: '-' :: x :: y :: rest => do
    let year := (← twoDigits? a b) * 100 + (← twoDigits? c d)
    let month ← twoDigits? m n
    let day ← twoDigits? x y
    if 1 ≤ month ∧ month ≤ 12 ∧ 1 ≤ day ∧ day ≤ daysIn year month then some rest else none
  | _ => none

/-- What follows the fraction of a second, if there is one. -/
def afterFraction? : List Char → Option (List Char)
  | '.' :: c :: rest => if c.isDigit then some (rest.dropWhile Char.isDigit) else none
  | '.' :: [] => none
  | rest => some rest

/-- What follows a time of day. -/
def afterTime? : List Char → Option (List Char)
  | a :: b :: ':' :: c :: d :: ':' :: e :: f :: rest => do
    let hour ← twoDigits? a b
    let minute ← twoDigits? c d
    let second ← twoDigits? e f
    if hour ≤ 23 ∧ minute ≤ 59 ∧ second ≤ 60 then afterFraction? rest else none
  | _ => none

/-- The distance of a local time from the universal one, or nothing at all. -/
def isOffset : List Char → Bool
  | [] | ['Z'] | ['z'] => true
  | [sign, a, b, ':', c, d] =>
    (sign == '+' || sign == '-') && (twoDigits? a b).any (· ≤ 23) && (twoDigits? c d).any (· ≤ 59)
  | _ => false

/-- A time of day with an optional offset. -/
def isOffsetTime (cs : List Char) : Bool :=
  (afterTime? cs).any isOffset

/-- A date without a time. -/
def isDate (cs : List Char) : Bool :=
  (afterDate? cs).any List.isEmpty

/-- A date, a date with a time, or a time of day. -/
def isMoment (cs : List Char) : Bool :=
  match afterDate? cs with
  | some [] => true
  | some (mark :: rest) => (mark == 'T' || mark == 't') && isOffsetTime rest
  | none => (afterTime? cs).any List.isEmpty

/-- The record of a date or a time of day: its text, under a name that no other record uses. -/
def moment (text : List Char) : Json :=
  .object [("moment", .string (String.ofList text))]

/-- What a word means. -/
def scalar? (word : List Char) : Option Json :=
  if word = ['t', 'r', 'u', 'e'] then some (.bool true)
  else if word = ['f', 'a', 'l', 's', 'e'] then some (.bool false)
  else if isMoment word then some (moment word)
  else
    match integer? word with
    | some i => some (.integer i)
    | none => (float? word).map .float

/-- A word and what follows it. A blank may stand between a date and a time. -/
def word? (cs : List Char) : Option (Json × List Char) := do
  let (word, rest) := cs.span isWordChar
  let v ← scalar? word
  match isDate word, rest with
  | true, ' ' :: more =>
    let (time, after) := more.span isWordChar
    return if isOffsetTime time then (moment (word ++ ' ' :: time), after) else (v, rest)
  | _, _ => return (v, rest)

end Toml

end Oxidize
