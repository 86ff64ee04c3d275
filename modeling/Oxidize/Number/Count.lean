/-!
# Counts in text

A count is a decimal number of at most 64 bits, with an optional plus sign and any leading zeros.
-/

namespace Oxidize

/-- The count that a text denotes. -/
def count? (text : List Char) : Option Nat :=
  let ds := match text with
    | '+' :: rest => rest
    | ds => ds
  if ds.isEmpty || !ds.all Char.isDigit then none
  else
    let n := ds.foldl (fun n c => n * 10 + (c.toNat - '0'.toNat)) 0
    if n < Nat.pow 2 64 then some n else none

end Oxidize
