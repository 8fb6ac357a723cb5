import LayeredSettings.Yaml.Implicit

/-!
# Scalars

Which of the styles plain, single-quoted and double-quoted a text can be written in. The simplest
is taken that is read back as the same text.
-/

namespace LayeredSettings.Yaml

def isBreak (c : Char) : Bool := c = '\n' || c = '\x85' || c = '\u2028' || c = '\u2029'

/-- The characters that set an indicator off from text. -/
def isSeparator (c : Char) : Bool :=
  c = '\x00' || c = ' ' || c = '\t' || c = '\r' || isBreak c

/-- The characters that must be escaped, wherever they stand. -/
def isSpecial (c : Char) : Bool :=
  let n := c.toNat
  !(n = 0xa || (0x20 ≤ n && n ≤ 0x7e))
    && !((n = 0x85 || (0xa0 ≤ n && n ≤ 0xd7ff) || (0xe000 ≤ n && n ≤ 0xfffd)
        || (0x10000 ≤ n && n < 0x10ffff))
      && n ≠ 0xfeff)

/-- The characters of a text with their right neighbours. -/
def neighbours (t : Text) : List (Char × Char) := t.zip t.tail

/-- Whether a text starts like the mark between two documents. -/
def startsAsMark (t : Text) : Bool :=
  "---".toList.isPrefixOf t || "...".toList.isPrefixOf t

/-- Whether the first character of a text would be taken for an indicator. -/
def startsAsIndicator : Text → Bool
  | [] => false
  | c :: rest =>
    "#,[]\x7b\x7d&*!|>'\"%@\x60".toList.contains c
      || ("?:-".toList.contains c && rest.head?.all isSeparator)

/-- Whether a text has a colon before white space or at its end. The first character is left to
`startsAsIndicator`. -/
def endsAsKey (t : Text) : Bool :=
  (neighbours t.tail).any (fun p => p.1 = ':' && isSeparator p.2) || t.tail.getLast? == some ':'

/-- Whether a text has a hash behind white space. -/
def startsComment (t : Text) : Bool :=
  (neighbours t).any fun p => isSeparator p.1 && p.2 = '#'

def isMultiline (t : Text) : Bool := t.any isBreak

/-- Whether a text starts or ends with a space or a line break. -/
def hasLooseEnd (t : Text) : Bool :=
  let loose (c : Char) : Bool := c = ' ' || isBreak c
  t.head?.any loose || t.getLast?.any loose

/-- Whether a space and a line break stand side by side in a text. -/
def hasBrokenSpace (t : Text) : Bool :=
  (neighbours t).any fun p => (p.1 = ' ' && isBreak p.2) || (isBreak p.1 && p.2 = ' ')

/-- Whether a text can be quoted with single quotes. -/
def allowsSingle (t : Text) : Bool := !hasBrokenSpace t && !t.any isSpecial

/-- Whether a text can stand without quotes. -/
def allowsPlain (t : Text) : Bool :=
  allowsSingle t && !hasLooseEnd t && !isMultiline t && !startsAsMark t && !startsAsIndicator t
    && !endsAsKey t && !startsComment t

inductive Style where
  | plain
  | single
  | double
  deriving DecidableEq, Repr

def styleOf (t : Text) : Style :=
  if readsAsText t && allowsPlain t then .plain
  else if allowsSingle t then .single
  else .double

/-- Whether a text can be a key in front of a colon: it has one line, is not empty and is shorter
than 123 characters. -/
def isSimpleKey (t : Text) : Bool := t ≠ [] && !isMultiline t && t.length + 5 < 128

end LayeredSettings.Yaml
