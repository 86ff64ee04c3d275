import Oxidize.Expr
import Oxidize.Number.Decimal
import Oxidize.Text.Printable

/-!
# Literals in the emitted source

Numbers are written as their shortest decimal without an exponent, whole ones without a point. Text
is quoted; a character that cannot be shown is written as its code point.
-/

namespace Oxidize

/-- The text of a number. Both zeros are written alike. Reference: `format_number`. -/
def Binary64.text (x : Binary64) : String :=
  if x.isNaN then "f64::NAN"
  else if !x.isFinite then (if x.isNegative then "f64::NEG_INFINITY" else "f64::INFINITY")
  else if x.isZero then "0"
  else (if x.isNegative then "-" else "") ++ x.shortest.positional

namespace Text

/-- A character inside a quoted text. -/
def quoteChar (c : Char) : List Char :=
  match c with
  | '\x00' => ['\\', '0']
  | '\t' => ['\\', 't']
  | '\r' => ['\\', 'r']
  | '\n' => ['\\', 'n']
  | '"' => ['\\', '"']
  | '\\' => ['\\', '\\']
  | c =>
    if isPrintable c then [c]
    else ['\\', 'u', '\x7b'] ++ Nat.toDigits 16 c.toNat ++ ['\x7d']

/-- A text in quotes. -/
def quote (s : String) : String :=
  String.ofList ('"' :: s.toList.flatMap quoteChar ++ ['"'])

end Text

/-- The text of a truth value. -/
def boolText (b : Bool) : String :=
  if b then "true" else "false"

/-- The text of a literal. Reference: the literals of `FnEmitter.expr`. -/
def Literal.render : Literal → String
  | .number x => x.text
  | .bool b => boolText b
  | .text s => Text.quote s
  | .null => "None"

end Oxidize
