/-!
# Numbers on the command line

Decimal numbers with an optional sign, in the ranges that the options take.
-/

namespace ShellCompletion.CommandLine

/-- The value of a non-empty run of decimal digits. -/
def digits? (digits : List Char) : Option Nat :=
  if digits = [] then none
  else
    digits.foldlM (fun value c =>
      if c.isDigit then some (10 * value + (c.toNat - '0'.toNat)) else none) 0

/-- A number of 64 bits. It may have a plus sign. -/
def word64? (text : String) : Option UInt64 := do
  let value ← match text.toList with
    | '+' :: digits => digits? digits
    | digits => digits? digits
  if value < UInt64.size then some (.ofNat value) else none

/-- A number of 32 bits. It may have a sign, though nothing but zero is in range behind a minus
sign. -/
def word32? (text : String) : Option UInt32 := do
  let value ← match text.toList with
    | '+' :: digits => digits? digits
    | '-' :: digits => (digits? digits).filter (· = 0)
    | digits => digits? digits
  if value < UInt32.size then some (.ofNat value) else none

end ShellCompletion.CommandLine
