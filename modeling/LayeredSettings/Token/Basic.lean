import LayeredSettings.Text.Ascii

/-!
# Tokens

The tokens of the configuration format and the character classes that begin and continue them.
-/

namespace LayeredSettings

/-- A token: a word with its text, a punctuation mark, or the end of the text. -/
inductive Token where
  | word (text : Text)
  | dot
  | opening
  | closing
  | equal
  | finish
  deriving DecidableEq, Repr

namespace Token

/-- The characters skipped between tokens. -/
def isBlank (c : Char) : Bool := c = ' ' || c = '\t' || c = '\r' || c = '\n'

def isSign (c : Char) : Bool := c = '+' || c = '-'

/-- The characters that begin a name: ASCII letters and the underscore. -/
def isNameStart (c : Char) : Bool := Text.isLetter c || c = '_'

def isNameChar (c : Char) : Bool := isNameStart c || Text.isDigit c

/-- The token that a punctuation mark stands for. -/
def ofMark? (c : Char) : Option Token :=
  if c = '.' then some dot
  else if c = '\x7b' then some opening
  else if c = '\x7d' then some closing
  else if c = '=' then some equal
  else none

/-- The text of a word; other tokens have none. -/
def text : Token → Text
  | word t => t
  | _ => []

def label : Token → String
  | word _ => "word"
  | dot => "."
  | opening => "\x7b"
  | closing => "\x7d"
  | equal => "="
  | finish => "end of input"

end Token

end LayeredSettings
