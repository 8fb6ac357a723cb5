import LayeredSettings.Text.Basic
import LayeredSettings.Text.Printable

/-!
# Texts in diagnostics

Diagnostics quote a text so that every character can be told: printable characters stand for
themselves, the others are escaped by their code points. Single quotes are used, unless the text
has single quotes and no double quotes.
-/

namespace LayeredSettings.Text

/-- The code point in lower-case hexadecimal with at least `width` digits. -/
def hexadecimal (width n : Nat) : Text :=
  let digits := Nat.toDigits 16 n
  List.replicate (width - digits.length) '0' ++ digits

/-- One character of a quoted text whose quotes are `quote`. -/
def inspectChar (quote c : Char) : Text :=
  if c = quote ∨ c = '\\' then ['\\', c]
  else if c = '\t' then ['\\', 't']
  else if c = '\n' then ['\\', 'n']
  else if c = '\r' then ['\\', 'r']
  else if isPrintable c then [c]
  else if c.toNat < 0x100 then '\\' :: 'x' :: hexadecimal 2 c.toNat
  else if c.toNat < 0x10000 then '\\' :: 'u' :: hexadecimal 4 c.toNat
  else '\\' :: 'U' :: hexadecimal 8 c.toNat

def inspectQuote (t : Text) : Char :=
  if t.contains '\'' && !t.contains '"' then '"' else '\''

def inspect (t : Text) : Text :=
  inspectQuote t :: (t.flatMap (inspectChar (inspectQuote t)) ++ [inspectQuote t])

end LayeredSettings.Text
