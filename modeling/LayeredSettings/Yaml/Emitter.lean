import LayeredSettings.Text.Inspect
import LayeredSettings.Yaml.Pen
import LayeredSettings.Yaml.Scalar

/-!
# Writing mappings

The emitter that the program runs with. It writes a flat mapping in block style, a line for each
entry. Long scalars are folded at spaces behind the eightieth column, except in a key in front of
its colon, where `fold` is false.
-/

namespace LayeredSettings.Yaml

/-! ## Runs -/

/-- A run of equal kind within a text. -/
inductive Run where
  | spaces (count : Nat)
  | breaks (first : Char) (rest : Text)
  | solid (t : Text)
  deriving DecidableEq, Repr

/-- A run list with one more character in front. -/
def Run.push (c : Char) (rs : List Run) : List Run :=
  if c = ' ' then
    match rs with
    | .spaces n :: rest => .spaces (n + 1) :: rest
    | _ => .spaces 1 :: rs
  else if isBreak c then
    match rs with
    | .breaks b t :: rest => .breaks c (b :: t) :: rest
    | _ => .breaks c [] :: rs
  else
    match rs with
    | .solid t :: rest => .solid (c :: t) :: rest
    | _ => .solid [c] :: rs

def runs (t : Text) : List Run := t.foldr Run.push []

/-! ## Scalars -/

/-- The column that the further lines of a scalar start in. -/
def scalarIndent : Nat := 2

/-- Whether a run of spaces may become a line break. -/
def folds (pen : Pen) (fold : Bool) (count : Nat) : Bool :=
  fold && count = 1 && Pen.width < pen.column

def writePlainRuns (fold : Bool) (pen : Pen) : List Run → Pen
  | [] => pen
  | .spaces n :: rest =>
    if folds pen fold n then writePlainRuns fold (pen.indent scalarIndent).settle rest
    else writePlainRuns fold (pen.write (List.replicate n ' ')) rest
  | .solid t :: rest => writePlainRuns fold (pen.write t) rest
  | .breaks c t :: rest => writePlainRuns fold (pen.write (c :: t)) rest

def writePlain (fold : Bool) (pen : Pen) (t : Text) : Pen :=
  writePlainRuns fold (if pen.spaced then pen.settle else (pen.write [' ']).settle) (runs t)

/-- Writes line breaks. A line feed at their start is doubled, since a single one would be folded
into a space. -/
def writeBreaks (pen : Pen) (first : Char) (rest : Text) : Pen :=
  let pen := if first = '\n' then pen.breakLine '\n' else pen
  ((first :: rest).foldl Pen.breakLine pen).indent scalarIndent

/-- Writes the runs of a single-quoted scalar; `inside` says that they do not start the scalar. -/
def writeSingleRuns (fold inside : Bool) (pen : Pen) : List Run → Pen
  | [] => pen
  | .spaces n :: rest =>
    if inside && rest ≠ [] && folds pen fold n then
      writeSingleRuns fold true (pen.indent scalarIndent) rest
    else writeSingleRuns fold true (pen.write (List.replicate n ' ')) rest
  | .breaks c t :: rest => writeSingleRuns fold true (writeBreaks pen c t) rest
  | .solid t :: rest =>
    let quoted := t.flatMap fun c => if c = '\'' then ['\'', '\''] else [c]
    writeSingleRuns fold true (pen.write quoted) rest

def writeSingle (fold : Bool) (pen : Pen) (t : Text) : Pen :=
  (writeSingleRuns fold false (pen.indicate '\'' true false) (runs t)).indicate '\'' false false

/-- The letter behind the backslash for a character that has one. -/
def escapeLetter? (c : Char) : Option Char :=
  let letters : List (Char × Char) :=
    [('\x00', '0'), ('\x07', 'a'), ('\x08', 'b'), ('\t', 't'), ('\n', 'n'), ('\x0b', 'v'),
      ('\x0c', 'f'), ('\r', 'r'), ('\x1b', 'e'), ('"', '"'), ('\\', '\\'), ('\x85', 'N'),
      ('\xa0', '_'), ('\u2028', 'L'), ('\u2029', 'P')]
  (letters.find? (·.1 = c)).map Prod.snd

/-- The escape of a character between double quotes. -/
def escape (c : Char) : Text :=
  let number (width : Nat) : Text := (Text.hexadecimal width c.toNat).map Char.toUpper
  match escapeLetter? c with
  | some letter => ['\\', letter]
  | none =>
    if c.toNat ≤ 0xff then '\\' :: 'x' :: number 2
    else if c.toNat ≤ 0xffff then '\\' :: 'u' :: number 4
    else '\\' :: 'U' :: number 8

/-- Whether a character stands for itself between double quotes. -/
def isVerbatim (c : Char) : Bool :=
  let n := c.toNat
  ((0x20 ≤ n && n ≤ 0x7e) || (0xa0 ≤ n && n ≤ 0xd7ff) || (0xe000 ≤ n && n ≤ 0xfffd))
    && c ≠ '"' && c ≠ '\\' && c ≠ '\x85' && c ≠ '\u2028' && c ≠ '\u2029' && c ≠ '\ufeff'

/-- Breaks the line inside double quotes. A space at the start of the new line, `next` being what
it starts with, is escaped. -/
def foldDouble (pen : Pen) (next : Option Char) : Pen :=
  let pen := ((pen.write ['\\']).indent scalarIndent).settle
  if next = some ' ' then pen.write ['\\'] else pen

/-- Writes the characters of a double-quoted scalar. `held` are characters that stand for
themselves and are not yet written, last first; `inside` says that a character came before. -/
def writeDoubleChars (fold inside : Bool) (pen : Pen) (held : Text) : Text → Pen
  | [] => pen.write held.reverse
  | c :: rest =>
    let mayFold := fold && inside && rest ≠ []
    if isVerbatim c then
      if mayFold && (c = ' ' || held = []) && Pen.width < pen.column + held.length then
        writeDoubleChars fold true (foldDouble (pen.write held.reverse) (some c)) [c] rest
      else writeDoubleChars fold true pen (c :: held) rest
    else
      let pen := (pen.write held.reverse).write (escape c)
      if mayFold && Pen.width + 1 < pen.column then
        writeDoubleChars fold true (foldDouble pen rest.head?) [] rest
      else writeDoubleChars fold true pen [] rest

def writeDouble (fold : Bool) (pen : Pen) (t : Text) : Pen :=
  (writeDoubleChars fold false (pen.indicate '"' true false) [] t).indicate '"' false false

def writeScalar (fold : Bool) (pen : Pen) (t : Text) : Pen :=
  match styleOf t with
  | .plain => writePlain fold pen t
  | .single => writeSingle fold pen t
  | .double => writeDouble fold pen t

/-! ## Mappings -/

/-- Writes an entry. A key that cannot stand in front of a colon stands behind a question mark. -/
def writeEntry (pen : Pen) (key value : Text) : Pen :=
  let pen := pen.indent 0
  if isSimpleKey key then
    writeScalar true ((writeScalar false pen key).indicate ':' false false) value
  else
    let pen := writeScalar true (pen.indicate '?' true true) key
    writeScalar true ((pen.indent 0).indicate ':' true true) value

def renderMapping (es : List (Text × Text)) : Text :=
  if es = [] then ['\x7b', '\x7d']
  else (es.foldl (fun pen e => writeEntry pen e.1 e.2) {}).written.reverse

/-- A mapping as a document, which ends in a line feed. -/
def document (es : List (Text × Text)) : Text := renderMapping es ++ ['\n']

end LayeredSettings.Yaml
