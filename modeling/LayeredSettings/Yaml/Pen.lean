import LayeredSettings.Text.Basic

/-!
# Writing in columns

A pen writes text and keeps the column it stands in, whether it stands behind white space, and
whether nothing but indentation was written in its line.
-/

namespace LayeredSettings.Yaml

/-- What was written, last character first, and where the pen stands. -/
structure Pen where
  written : Text := []
  column : Nat := 0
  spaced : Bool := true
  fresh : Bool := true

namespace Pen

/-- The column behind which lines are folded. -/
def width : Nat := 80

/-- Writes text within a line. -/
def write (pen : Pen) (t : Text) : Pen :=
  { pen with written := t.reverse ++ pen.written, column := pen.column + t.length }

/-- Says that the pen stands behind text. -/
def settle (pen : Pen) : Pen := { pen with spaced := false, fresh := false }

/-- Writes an indicator, set off by a space where `apart` asks for it. The line stays fresh behind
an indicator that itself indents. -/
def indicate (pen : Pen) (indicator : Char) (apart indents : Bool) : Pen :=
  let pen' := pen.write (if pen.spaced || !apart then [indicator] else [' ', indicator])
  { pen' with spaced := false, fresh := pen.fresh && indents }

/-- Ends the line with the line break `c`. -/
def breakLine (pen : Pen) (c : Char) : Pen :=
  { written := c :: pen.written, column := 0, spaced := true, fresh := true }

/-- Goes to the column `n` of a fresh line. -/
def indent (pen : Pen) (n : Nat) : Pen :=
  let pen' :=
    if !pen.fresh || n < pen.column || (pen.column = n && !pen.spaced) then pen.breakLine '\n'
    else pen
  if pen'.column < n then
    { (pen'.write (List.replicate (n - pen'.column) ' ')) with spaced := true }
  else pen'

end Pen

end LayeredSettings.Yaml
