import LayeredSettings.Text.Basic

/-!
# ASCII classes

The letters and digits of ASCII, and the numbers that decimal digits stand for. Beyond ASCII
nothing counts as a letter or a digit.
-/

namespace LayeredSettings.Text

/-- The decimal digits `0` to `9`. -/
def isDigit (c : Char) : Bool := '0' ≤ c && c ≤ '9'

/-- The letters `a` to `z` in both cases. -/
def isLetter (c : Char) : Bool := ('a' ≤ c && c ≤ 'z') || ('A' ≤ c && c ≤ 'Z')

/-- The hexadecimal digits in both cases. -/
def isHexDigit (c : Char) : Bool :=
  isDigit c || ('a' ≤ c && c ≤ 'f') || ('A' ≤ c && c ≤ 'F')

/-- The number that a run of digits stands for; no digits are no number. -/
def natural? (t : Text) : Option Nat :=
  if t ≠ [] ∧ t.all isDigit then
    some (t.foldl (fun n c => 10 * n + (c.toNat - '0'.toNat)) 0)
  else none

end LayeredSettings.Text
